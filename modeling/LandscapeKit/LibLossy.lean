import LandscapeKit.LibUtf8

/-!
Bytes shown as a text, whatever they are: a part that is no character becomes the replacement
character, and a text that is well formed is shown as it is.
-/

namespace LandscapeKit.Utf8

open Text

def isContinuation (b : UInt8) : Bool := 0x80 ≤ b && b ≤ 0xBF

def continues (first second : UInt8) : Bool :=
  if first = 0xE0 then 0xA0 ≤ second && second ≤ 0xBF
  else if first = 0xED then 0x80 ≤ second && second ≤ 0x9F
  else if first = 0xF0 then 0x90 ≤ second && second ≤ 0xBF
  else if first = 0xF4 then 0x80 ≤ second && second ≤ 0x8F
  else 0xC2 ≤ first && first ≤ 0xF3 && isContinuation second

def illFormed : Bytes → ℕ
  | first :: second :: rest =>
    if !(continues first second) || first < 0xE0 then 1
    else if 0xF0 ≤ first && rest.head?.any isContinuation then 3
    else 2
  | _ => 1

def lossyFrom : ℕ → Bytes → Text
  | _, [] => []
  | 0, _ => []
  | n + 1, name =>
    match name.toByteArray.utf8DecodeChar? 0 with
    | some c => c :: lossyFrom n (name.drop c.utf8Size)
    | none => Char.ofNat 0xFFFD :: lossyFrom n (name.drop (illFormed name))

def lossy (name : Bytes) : Text := lossyFrom name.length name

theorem lossyFrom_bytes {n : ℕ} (text : Text) (h : (bytes text).length ≤ n) :
    lossyFrom n (bytes text) = text := by
  induction text generalizing n with
  | nil =>
    rw [bytes_nil]
    cases n <;> rfl
  | cons c text ih =>
    have hlength : (String.utf8EncodeChar c).length = c.utf8Size := String.length_utf8EncodeChar c
    have hpos := c.utf8Size_pos
    rw [bytes_cons, List.length_append] at h
    obtain ⟨m, rfl⟩ : ∃ m, n = m + 1 := ⟨n - 1, by omega⟩
    obtain ⟨b, bs, hbs⟩ : ∃ b bs, String.utf8EncodeChar c ++ bytes text = b :: bs := by
      apply List.exists_cons_of_ne_nil
      intro hnil
      rw [List.append_eq_nil_iff] at hnil
      rw [hnil.1] at hlength
      exact absurd hlength.symm hpos.ne'
    have hdecode : (b :: bs).toByteArray.utf8DecodeChar? 0 = some c := by
      rw [← hbs, List.toByteArray_append]
      exact ByteArray.utf8DecodeChar?_utf8EncodeChar_append
    have hdrop : (b :: bs).drop c.utf8Size = bytes text := by
      rw [← hbs, ← hlength, List.drop_left]
    rw [bytes_cons, hbs, lossyFrom, hdecode]
    · dsimp only
      rw [hdrop, ih (by omega)]
    · nofun

theorem lossy_bytes (text : Text) : lossy (bytes text) = text := lossyFrom_bytes text le_rfl

def IsUtf8 (name : Bytes) : Prop := bytes (lossy name) = name

theorem isUtf8_iff {name : Bytes} : IsUtf8 name ↔ ∃ text, bytes text = name := by
  constructor
  · intro h
    exact ⟨_, h⟩
  · rintro ⟨text, rfl⟩
    rw [IsUtf8, lossy_bytes]

instance (name : Bytes) : Decidable (IsUtf8 name) := inferInstanceAs (Decidable (_ = _))

theorem isUtf8_bytes (text : Text) : IsUtf8 (bytes text) := isUtf8_iff.mpr ⟨text, rfl⟩

theorem prefix_of_bytes {a b : Text} (h : bytes a <+: bytes b) : a <+: b := by
  induction a generalizing b with
  | nil => exact List.nil_prefix
  | cons c a ih =>
    have hlength : (String.utf8EncodeChar c).length = c.utf8Size := String.length_utf8EncodeChar c
    have hpos := c.utf8Size_pos
    obtain ⟨rest, hrest⟩ := h
    rw [bytes_cons, List.append_assoc] at hrest
    cases b with
    | nil =>
      have hempty := congrArg List.length hrest
      rw [List.length_append, bytes_nil, List.length_nil] at hempty
      omega
    | cons d b =>
      -- both heads are what is decoded first
      have hdecode (e : Char) (more : Bytes) :
          (String.utf8EncodeChar e ++ more).toByteArray.utf8DecodeChar? 0 = some e := by
        rw [List.toByteArray_append]
        exact ByteArray.utf8DecodeChar?_utf8EncodeChar_append
      have hc := hdecode c (bytes a ++ rest)
      rw [hrest, bytes_cons, hdecode d (bytes b)] at hc
      obtain rfl := Option.some.inj hc
      rw [bytes_cons] at hrest
      have htail := List.append_cancel_left hrest
      exact List.cons_prefix_cons.mpr ⟨rfl, ih ⟨rest, htail⟩⟩

theorem isUtf8_append {text : Text} {more : Bytes} :
    IsUtf8 (bytes text ++ more) ↔ IsUtf8 more := by
  constructor
  · intro h
    obtain ⟨whole, hwhole⟩ := isUtf8_iff.mp h
    obtain ⟨rest, rfl⟩ := prefix_of_bytes ⟨more, hwhole.symm⟩
    rw [bytes_append] at hwhole
    exact isUtf8_iff.mpr ⟨rest, List.append_cancel_left hwhole⟩
  · intro h
    obtain ⟨rest, rfl⟩ := isUtf8_iff.mp h
    rw [← bytes_append]
    exact isUtf8_bytes _

example : lossy [0x61, 0xE2, 0x82, 0x2F, 0xFF] = ['a', '\uFFFD', '/', '\uFFFD'] := by decide +kernel

end LandscapeKit.Utf8
