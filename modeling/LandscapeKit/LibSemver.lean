import Mathlib.Data.Nat.Notation
import Mathlib.Order.Compare
import LandscapeKit.LibScan
import Mathlib.Algebra.Group.Nat.Defs

/-!
Semantic versions. What a library of them promises is `Library`: a parser, and an order of
precedence that leaves the build metadata out and compares numeric identifiers as numbers.
`standard` is one that keeps its promises.
-/

namespace LandscapeKit.Semver

open Text Std

structure Version where
  major : ℕ
  minor : ℕ
  patch : ℕ
  pre : Text
  build : Text
deriving DecidableEq

def Canonical (digits : Text) : Prop :=
  digits ≠ [] ∧ digits.all Char.isDigit ∧ (digits.head? = some '0' → digits.length = 1)

instance (digits : Text) : Decidable (Canonical digits) := inferInstanceAs (Decidable (_ ∧ _ ∧ _))

def value (digits : Text) : ℕ := Nat.ofDigitChars 10 digits 0

def rc : Text := ['r', 'c']

def candidate (digits : Text) : Text := rc ++ '.' :: digits

structure Library where
  parse : Text → Option Version
  display : Version → Text
  newPrerelease : Text → Option Text
  cmpPrecedence : Version → Version → Ordering
  [trans : TransCmp cmpPrecedence]
  newPrerelease_candidate : ∀ digits, Canonical digits →
    newPrerelease (candidate digits) = some (candidate digits)
  cmp_candidate : ∀ major minor patch m n build build', Canonical m → Canonical n →
    cmpPrecedence ⟨major, minor, patch, candidate m, build⟩
      ⟨major, minor, patch, candidate n, build'⟩ = compare (value m) (value n)

attribute [instance] Library.trans

section Standard

inductive Identifier
  | numeric (n : ℕ)
  | word (text : Text)
deriving DecidableEq

def Identifier.isWord : Identifier → Bool
  | .numeric _ => false
  | .word _ => true

def Identifier.number : Identifier → ℕ
  | .numeric n => n
  | .word _ => 0

def Identifier.text : Identifier → Text
  | .numeric _ => []
  | .word text => text

def identifier (text : Text) : Identifier :=
  if text.all Char.isDigit then .numeric (value text) else .word text

def identifiers (pre : Text) : List Identifier := (pre.splitOn '.').map identifier

def cmpIdentifier : Identifier → Identifier → Ordering :=
  compareLex (compareOn Identifier.isWord)
    (compareLex (compareOn Identifier.number) (compareOn Identifier.text))

instance : TransCmp cmpIdentifier :=
  inferInstanceAs (TransCmp (compareLex (compareOn Identifier.isWord)
    (compareLex (compareOn Identifier.number) (compareOn Identifier.text))))

def cmpIdentifiers (v w : Version) : Ordering :=
  List.compareLex cmpIdentifier (identifiers v.pre) (identifiers w.pre)

instance : TransCmp cmpIdentifiers where
  eq_swap {v w} :=
    @OrientedCmp.eq_swap _ (List.compareLex cmpIdentifier) _ (identifiers v.pre)
      (identifiers w.pre)
  isLE_trans {u v w} :=
    @TransCmp.isLE_trans _ (List.compareLex cmpIdentifier) _ (identifiers u.pre)
      (identifiers v.pre) (identifiers w.pre)

def standardCmp : Version → Version → Ordering :=
  compareLex (compareOn Version.major) (compareLex (compareOn Version.minor)
    (compareLex (compareOn Version.patch)
      (compareLex (compareOn fun v => v.pre.isEmpty) cmpIdentifiers)))

instance : TransCmp standardCmp :=
  inferInstanceAs (TransCmp (compareLex _ (compareLex _ (compareLex _ (compareLex _ _)))))

def isIdentifierChar (c : Char) : Bool := c.isAlphanum || c = '-'

def ValidPre (text : Text) : Prop :=
  ∀ t ∈ text.splitOn '.', t ≠ [] ∧ t.all isIdentifierChar ∧ (t.all Char.isDigit → Canonical t)

def ValidBuild (text : Text) : Prop := ∀ t ∈ text.splitOn '.', t ≠ [] ∧ t.all isIdentifierChar

instance (text : Text) : Decidable (ValidPre text) := List.decidableBAll _ _

instance (text : Text) : Decidable (ValidBuild text) := List.decidableBAll _ _

def standardPrerelease (text : Text) : Option Text :=
  if text = [] ∨ ValidPre text then some text else none

def parseNumber (digits : Text) : Option ℕ :=
  if Canonical digits ∧ value digits < 2 ^ 64 then some (value digits) else none

def parseCore (core pre build : Text) : Option Version :=
  match core.splitOn '.' with
  | [major, minor, patch] => do
    return ⟨← parseNumber major, ← parseNumber minor, ← parseNumber patch, pre, build⟩
  | _ => none

def parsePre (text build : Text) : Option Version :=
  match splitOnce ['-'] text with
  | none => parseCore text [] build
  | some (core, pre) => if ValidPre pre then parseCore core pre build else none

def standardParse (text : Text) : Option Version :=
  match splitOnce ['+'] text with
  | none => parsePre text []
  | some (front, build) => if ValidBuild build then parsePre front build else none

def standardDisplay (v : Version) : Text :=
  let number (n : ℕ) := Nat.toDigits 10 n
  let core := number v.major ++ '.' :: number v.minor ++ '.' :: number v.patch
  core ++ (if v.pre = [] then [] else '-' :: v.pre) ++ (if v.build = [] then [] else '+' :: v.build)

theorem splitOn_candidate {digits : Text} (h : Canonical digits) :
    (candidate digits).splitOn '.' = [rc, digits] := by
  have hdot : '.' ∉ digits := by
    intro hmem
    exact absurd (List.all_eq_true.mp h.2.1 '.' hmem) (by decide)
  rw [candidate, List.splitOn_append_cons_self_of_not_mem (by decide),
    List.splitOn_eq_singleton hdot]

theorem identifiers_candidate {digits : Text} (h : Canonical digits) :
    identifiers (candidate digits) = [.word rc, .numeric (value digits)] := by
  have hidentifier : identifier digits = .numeric (value digits) := if_pos h.2.1
  rw [identifiers, splitOn_candidate h, List.map_cons, List.map_cons, List.map_nil, hidentifier]
  rfl

theorem validPre_candidate {digits : Text} (h : Canonical digits) :
    ValidPre (candidate digits) := by
  have hchars : digits.all isIdentifierChar = true := by
    apply List.all_eq_true.mpr
    intro c hc
    have hdigit := List.all_eq_true.mp h.2.1 c hc
    simp only [isIdentifierChar, Char.isAlphanum, hdigit, Bool.or_true, Bool.true_or]
  intro t ht
  rw [splitOn_candidate h, List.mem_cons, List.mem_singleton] at ht
  rcases ht with rfl | rfl
  · exact ⟨by decide, by decide, fun hdigits => absurd hdigits (by decide)⟩
  · exact ⟨h.1, hchars, fun _ => h⟩

def standard : Library where
  parse := standardParse
  display := standardDisplay
  newPrerelease := standardPrerelease
  cmpPrecedence := standardCmp
  newPrerelease_candidate := by
    intro digits h
    exact if_pos (.inr (validPre_candidate h))
  cmp_candidate := by
    intro major minor patch m n build build' hm hn
    have hnumbers : cmpIdentifier (.numeric (value m)) (.numeric (value n)) =
        compare (value m) (value n) := by
      simp [cmpIdentifier, compareLex, compareOn, Identifier.isWord, Identifier.number,
        Identifier.text]
    have hpre (digits : Text) : (candidate digits).isEmpty = false := rfl
    simp only [standardCmp, compareLex, compareOn, cmpIdentifiers, hpre,
      identifiers_candidate hm, identifiers_candidate hn, ReflCmp.compare_self,
      List.compareLex_cons_cons, hnumbers, Ordering.eq_then, Ordering.then_eq]

example : standardParse "1.2.0-rc.10+b".toList = some ⟨1, 2, 0, "rc.10".toList, ['b']⟩ := by
  decide +kernel

end Standard

end LandscapeKit.Semver
