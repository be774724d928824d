import LandscapeKit.LibBytes
import LandscapeKit.LibText

/-!
Texts and the bytes they are stored as. A position is a number of bytes, and a slice that begins or
ends inside a character is none. A scanner that asks about ASCII bytes only stops between
characters: where the scanner of the characters does.
-/

namespace LandscapeKit.Utf8

open Text

def bytes (text : Text) : Bytes := text.flatMap String.utf8EncodeChar

def size (text : Text) : ℕ := (bytes text).length

def cutAt : ℕ → Text → Option (Text × Text)
  | 0, text => some ([], text)
  | _ + 1, [] => none
  | n + 1, c :: text =>
    if c.utf8Size ≤ n + 1 then
      (cutAt (n + 1 - c.utf8Size) text).map fun s => (c :: s.1, s.2)
    else none

def sub (text : Text) (start stop : ℕ) : Option Text :=
  (cutAt stop text).bind fun s => (cutAt start s.1).map Prod.snd

section Sizes

@[simp]
theorem bytes_nil : bytes [] = [] := rfl

@[simp]
theorem bytes_cons (c : Char) (text : Text) :
    bytes (c :: text) = String.utf8EncodeChar c ++ bytes text := rfl

@[simp]
theorem bytes_append (a b : Text) : bytes (a ++ b) = bytes a ++ bytes b := List.flatMap_append

@[simp]
theorem size_nil : size [] = 0 := rfl

@[simp]
theorem size_cons (c : Char) (text : Text) : size (c :: text) = c.utf8Size + size text := by
  rw [size, bytes_cons, List.length_append, String.length_utf8EncodeChar, size]

@[simp]
theorem size_append (a b : Text) : size (a ++ b) = size a + size b := by
  rw [size, bytes_append, List.length_append, size, size]

theorem length_le_size (text : Text) : text.length ≤ size text := by
  induction text with
  | nil => exact le_refl 0
  | cons c text ih =>
    have hpos := c.utf8Size_pos
    rw [List.length_cons, size_cons]
    omega

theorem size_eq_zero_iff {text : Text} : size text = 0 ↔ text = [] := by
  constructor
  · intro h
    have hle := length_le_size text
    exact List.eq_nil_of_length_eq_zero (by omega)
  · rintro rfl
    rfl

theorem cutAt_append (a b : Text) : cutAt (size a) (a ++ b) = some (a, b) := by
  induction a with
  | nil => rw [size_nil, List.nil_append, cutAt]
  | cons c a ih =>
    have hpos := c.utf8Size_pos
    obtain ⟨n, hn⟩ : ∃ n, size (c :: a) = n + 1 := by
      rw [size_cons]
      exact ⟨c.utf8Size + size a - 1, by omega⟩
    have hrest : n + 1 - c.utf8Size = size a := by
      rw [← hn, size_cons]
      omega
    have hle : c.utf8Size ≤ n + 1 := by
      rw [← hn, size_cons]
      omega
    rw [hn, List.cons_append, cutAt, if_pos hle, hrest, ih]
    rfl

theorem sub_append (a t b : Text) : sub (a ++ (t ++ b)) (size a) (size a + size t) = some t := by
  rw [sub, ← size_append, ← List.append_assoc, cutAt_append, Option.bind_some, cutAt_append]
  rfl

theorem size_take_lt {text : Text} {m n : ℕ} (hlt : m < n) (hn : n ≤ text.length) :
    size (text.take m) < size (text.take n) := by
  obtain ⟨k, rfl⟩ : ∃ k, n = m + (k + 1) := ⟨n - m - 1, by omega⟩
  have hlen : ((text.drop m).take (k + 1)).length = k + 1 := by
    rw [List.length_take, List.length_drop]
    omega
  have hle := length_le_size ((text.drop m).take (k + 1))
  rw [List.take_add, size_append]
  omega

theorem size_take_le_iff {text : Text} {m n : ℕ} (hm : m ≤ text.length) (hn : n ≤ text.length) :
    size (text.take m) ≤ size (text.take n) ↔ m ≤ n := by
  constructor
  · intro h
    by_contra hlt
    have hback := size_take_lt (Nat.lt_of_not_le hlt) hm
    omega
  · intro h
    rcases Nat.lt_or_eq_of_le h with hlt | rfl
    · exact (size_take_lt hlt hn).le
    · exact le_refl _

end Sizes

section Ascii

def Agrees (p : UInt8 → Bool) (q : Char → Bool) : Prop :=
  ∀ c, ∀ b ∈ String.utf8EncodeChar c, p b = q c

theorem utf8EncodeChar_ascii {c : Char} (h : c.toNat < 128) :
    String.utf8EncodeChar c = [UInt8.ofNat c.toNat] := by
  have hle : c.val.toNat ≤ 0x7f := Nat.le_of_lt_succ h
  rw [String.utf8EncodeChar]
  exact if_pos hle

theorem high_of_mem {c : Char} (h : 128 ≤ c.toNat) :
    ∀ b ∈ String.utf8EncodeChar c, 128 ≤ b.toNat := by
  have hnot : ¬ c.val.toNat ≤ 0x7f := Nat.not_le_of_lt h
  have hhigh (low lead : ℕ) (hlow : low < 256 - lead) (hlead : 128 ≤ lead) :
      128 ≤ (UInt8.ofNat (low + lead)).toNat := by
    rw [UInt8.toNat_ofNat', Nat.mod_eq_of_lt (by omega)]
    omega
  intro b hb
  rw [String.utf8EncodeChar] at hb
  rw [if_neg hnot] at hb
  split at hb
  · simp only [List.mem_cons, List.not_mem_nil, or_false] at hb
    rcases hb with rfl | rfl
    · exact hhigh _ _ (by omega) (by omega)
    · exact hhigh _ _ (by omega) (by omega)
  · split at hb
    · simp only [List.mem_cons, List.not_mem_nil, or_false] at hb
      rcases hb with rfl | rfl | rfl
      · exact hhigh _ _ (by omega) (by omega)
      · exact hhigh _ _ (by omega) (by omega)
      · exact hhigh _ _ (by omega) (by omega)
    · simp only [List.mem_cons, List.not_mem_nil, or_false] at hb
      rcases hb with rfl | rfl | rfl | rfl
      · exact hhigh _ _ (by omega) (by omega)
      · exact hhigh _ _ (by omega) (by omega)
      · exact hhigh _ _ (by omega) (by omega)
      · exact hhigh _ _ (by omega) (by omega)

theorem agrees_eq {d : Char} (hd : d.toNat < 128) :
    Agrees (fun b => b = UInt8.ofNat d.toNat) (fun c => c = d) := by
  intro c b hb
  have hvalue {n : ℕ} (hn : n < 128) : (UInt8.ofNat n).toNat = n := by
    rw [UInt8.toNat_ofNat', Nat.mod_eq_of_lt (by omega)]
  apply decide_eq_decide.mpr
  rcases Nat.lt_or_ge c.toNat 128 with hlow | hhigh
  · rw [utf8EncodeChar_ascii hlow, List.mem_singleton] at hb
    rw [hb]
    constructor
    · intro h
      have hnat := congrArg UInt8.toNat h
      rw [hvalue hlow, hvalue hd] at hnat
      rw [← Char.ofNat_toNat c, hnat, Char.ofNat_toNat]
    · rintro rfl
      rfl
  · have hbyte := high_of_mem hhigh b hb
    constructor
    · rintro rfl
      rw [hvalue hd] at hbyte
      omega
    · rintro rfl
      omega

variable {p p' : UInt8 → Bool} {q q' : Char → Bool}

theorem Agrees.not (h : Agrees p q) : Agrees (fun b => !p b) (fun c => !q c) := by
  intro c b hb
  dsimp only
  rw [h c b hb]

theorem Agrees.or (h : Agrees p q) (h' : Agrees p' q') :
    Agrees (fun b => p b || p' b) (fun c => q c || q' c) := by
  intro c b hb
  dsimp only
  rw [h c b hb, h' c b hb]

theorem Agrees.and (h : Agrees p q) (h' : Agrees p' q') :
    Agrees (fun b => p b && p' b) (fun c => q c && q' c) := by
  intro c b hb
  dsimp only
  rw [h c b hb, h' c b hb]

theorem takeWhile_bytes (h : Agrees p q) (text : Text) :
    (bytes text).takeWhile p = bytes (text.takeWhile q) := by
  induction text with
  | nil => rfl
  | cons c text ih =>
    rw [bytes_cons, List.takeWhile_cons]
    cases hc : q c with
    | true =>
      have hall : ∀ b ∈ String.utf8EncodeChar c, p b = true := fun b hb => (h c b hb).trans hc
      rw [List.takeWhile_append_of_pos hall, ih]
      rfl
    | false =>
      -- the first byte stops the scanner of the bytes
      cases hbytes : String.utf8EncodeChar c with
      | nil => exact absurd hbytes String.utf8EncodeChar_ne_nil
      | cons b bs =>
        have hb : p b = false := (h c b (hbytes ▸ List.mem_cons_self ..)).trans hc
        rw [List.cons_append, List.takeWhile_cons, hb]
        rfl

theorem head?_bytes (d : Char) (hd : d.toNat < 128) (text : Text) :
    (bytes text).head? = some (UInt8.ofNat d.toNat) ↔ text.head? = some d := by
  cases text with
  | nil => simp
  | cons c text =>
    cases hbytes : String.utf8EncodeChar c with
    | nil => exact absurd hbytes String.utf8EncodeChar_ne_nil
    | cons b bs =>
      have hb := decide_eq_decide.mp (agrees_eq hd c b (hbytes ▸ List.mem_cons_self ..))
      rw [bytes_cons, hbytes, List.cons_append, List.head?_cons, List.head?_cons, Option.some_inj,
        Option.some_inj]
      exact hb

theorem mem_bytes (d : Char) (hd : d.toNat < 128) (text : Text) :
    UInt8.ofNat d.toNat ∈ bytes text ↔ d ∈ text := by
  rw [bytes, List.mem_flatMap]
  constructor
  · rintro ⟨c, hc, hb⟩
    have hsame := agrees_eq hd c _ hb
    rw [decide_eq_decide] at hsame
    exact hsame.mp rfl ▸ hc
  · intro h
    refine ⟨d, h, ?_⟩
    rw [utf8EncodeChar_ascii hd]
    exact List.mem_singleton_self _

end Ascii

section Positions

def LeftAt (text : Text) (pos : ℕ) (rest : Text) : Prop :=
  ∃ front, text = front ++ rest ∧ pos = size front

variable {text rest : Text} {pos : ℕ}

theorem leftAt_zero (text : Text) : LeftAt text 0 text := ⟨[], rfl, rfl⟩

theorem LeftAt.add {t : Text} (h : LeftAt text pos (t ++ rest)) :
    LeftAt text (pos + size t) rest := by
  obtain ⟨front, rfl, rfl⟩ := h
  exact ⟨front ++ t, (List.append_assoc ..).symm, (size_append ..).symm⟩

theorem LeftAt.cons {c : Char} (h : LeftAt text pos rest) :
    LeftAt (c :: text) (pos + c.utf8Size) rest := by
  obtain ⟨front, rfl, rfl⟩ := h
  exact ⟨c :: front, rfl, by rw [size_cons, Nat.add_comm]⟩

theorem LeftAt.trans {n : ℕ} {behind : Text} (h : LeftAt text pos rest)
    (h' : LeftAt rest n behind) : LeftAt text (pos + n) behind := by
  obtain ⟨front, rfl, rfl⟩ := h'
  exact h.add

theorem LeftAt.drop_bytes (h : LeftAt text pos rest) : (bytes text).drop pos = bytes rest := by
  obtain ⟨front, rfl, rfl⟩ := h
  rw [bytes_append, size, List.drop_left]

theorem LeftAt.sub {t : Text} (h : LeftAt text pos (t ++ rest)) :
    sub text pos (pos + size t) = some t := by
  obtain ⟨front, rfl, rfl⟩ := h
  exact sub_append front t rest

theorem LeftAt.le_size (h : LeftAt text pos rest) : pos + size rest = size text := by
  obtain ⟨front, rfl, rfl⟩ := h
  rw [size_append]

theorem LeftAt.size_take (h : LeftAt text pos rest) :
    size (text.take (text.length - rest.length)) = pos := by
  obtain ⟨front, rfl, rfl⟩ := h
  rw [List.length_append, Nat.add_sub_cancel, List.take_left]

theorem LeftAt.takeWhile {p : UInt8 → Bool} {q : Char → Bool} (hpq : Agrees p q)
    (h : LeftAt text pos rest) :
    ((bytes text).drop pos).takeWhile p = bytes (rest.takeWhile q) ∧
      LeftAt text (pos + size (rest.takeWhile q)) (rest.dropWhile q) := by
  constructor
  · rw [h.drop_bytes, takeWhile_bytes hpq]
  · apply LeftAt.add
    rwa [List.takeWhile_append_dropWhile]

end Positions

end LandscapeKit.Utf8
