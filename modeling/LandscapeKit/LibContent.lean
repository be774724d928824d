import LandscapeKit.LibText

/-!
What a regular file holds: text, or bytes that are not valid UTF-8.
-/

namespace LandscapeKit

inductive Content where
  | utf8 (text : Text)
  | binary (bytes : List UInt8)
deriving DecidableEq

namespace Content

def text? : Content → Option Text
  | utf8 text => some text
  | binary _ => none

def take (n : ℕ) : Content → Content
  | utf8 text => utf8 (text.take n)
  | binary bytes => binary (bytes.take n)

theorem text?_eq_some {c : Content} {text : Text} (h : c.text? = some text) : c = utf8 text := by
  cases c with
  | utf8 t => exact congrArg utf8 (Option.some.inj h)
  | binary _ => cases h

end Content

end LandscapeKit
