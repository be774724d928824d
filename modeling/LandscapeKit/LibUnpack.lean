import Mathlib.Data.List.Nodup
import Mathlib.Data.List.Pairwise
import LandscapeKit.LibFiles

/-!
Unpacking a list of files and directories into an empty directory, one after
the other: it succeeds exactly when no file lies above another item.
-/

namespace LandscapeKit.Unpack

variable {κ : Type}

structure Item (κ : Type) where
  path : Path
  content : Option κ

def empty : Files κ := fun p => if p = [] then some .dir else none

def Passable (fs : Files κ) (p : Path) : Prop := ∀ q, q <+: p → fs q = none ∨ fs q = some .dir

def Fits (fs : Files κ) (x : Item κ) : Prop :=
  match x.content with
  | none => Passable fs x.path
  | some _ => Passable fs x.path.dropLast ∧ fs x.path ≠ some .dir

def place (fs : Files κ) (x : Item κ) : Files κ :=
  match x.content with
  | none => fs.makeDirs x.path
  | some c => (fs.makeDirs x.path.dropLast).put x.path (.file c)

def FitsAll (fs : Files κ) : List (Item κ) → Prop
  | [] => True
  | x :: xs => Fits fs x ∧ FitsAll (place fs x) xs

def placeAll (fs : Files κ) (xs : List (Item κ)) : Files κ := xs.foldl place fs

def Above (x y : Item κ) : Prop := x.content.isSome ∧ x.path <+: y.path

def Compatible (x y : Item κ) : Prop := ¬ Above x y ∧ ¬ Above y x

theorem Compatible.symm {x y : Item κ} (h : Compatible x y) : Compatible y x := ⟨h.2, h.1⟩

instance : Std.Symm (Compatible : Item κ → Item κ → Prop) := ⟨fun _ _ h => h.symm⟩

theorem prefix_dropLast_iff {p q : Path} (hq : q ≠ []) : p <+: q.dropLast ↔ p <+: q ∧ p ≠ q := by
  obtain ⟨init, last, rfl⟩ : ∃ init last, q = init ++ [last] :=
    ⟨q.dropLast, q.getLast hq, (List.dropLast_append_getLast hq).symm⟩
  rw [List.dropLast_concat, List.prefix_concat_iff]
  constructor
  · intro hp
    refine ⟨.inr hp, ?_⟩
    rintro rfl
    have hlen := hp.length_le
    rw [List.length_append, List.length_singleton] at hlen
    omega
  · rintro ⟨rfl | hp, hne⟩
    · exact absurd rfl hne
    · exact hp

structure Progress (done : List (Item κ)) (fs : Files κ) : Prop where
  file : ∀ p, fs.isFile p = true ↔ ∃ x ∈ done, x.content.isSome ∧ x.path = p
  dir : ∀ p, fs p = some .dir ↔
    p = [] ∨ ∃ x ∈ done, p <+: x.path ∧ (x.content = none ∨ p ≠ x.path)
  noLink : ∀ p t, fs p ≠ some (.link t)

theorem Progress.init : Progress [] (empty : Files κ) where
  file p := by
    by_cases hp : p = [] <;> simp [Files.isFile, empty, hp]
  dir p := by
    by_cases hp : p = [] <;> simp [empty, hp]
  noLink p t := by
    by_cases hp : p = [] <;> simp [empty, hp]

theorem made_eq_dir_iff {inWay : Prop} {n : Option (Node κ)} [Decidable (inWay ∧ n = none)]
    (h : inWay → n = none ∨ n = some .dir) :
    (if inWay ∧ n = none then some .dir else n) = some .dir ↔ n = some .dir ∨ inWay := by
  constructor
  · split
    · next hn => exact fun _ => .inr hn.1
    · exact .inl
  · rintro (hd | hw)
    · rw [if_neg (by simp [hd]), hd]
    · rcases h hw with hnone | hd
      · rw [if_pos ⟨hw, hnone⟩]
      · rw [if_neg (by simp [hd]), hd]

section Step

variable {done : List (Item κ)} {fs : Files κ} (h : Progress done fs)

include h

theorem Progress.free_iff (p : Path) :
    (fs p = none ∨ fs p = some .dir) ↔ ¬ ∃ x ∈ done, x.content.isSome ∧ x.path = p := by
  rw [← h.file p]
  cases hp : fs p with
  | none => simp [Files.isFile, hp]
  | some n =>
    cases n with
    | dir => simp [Files.isFile, hp]
    | file c => simp [Files.isFile, hp]
    | link t => exact absurd hp (h.noLink p t)

theorem Progress.passable_iff (p : Path) :
    Passable fs p ↔ ∀ y ∈ done, y.content.isSome → ¬ y.path <+: p := by
  constructor
  · intro hpass y hy hfile hpre
    exact (h.free_iff y.path).mp (hpass y.path hpre) ⟨y, hy, hfile, rfl⟩
  · intro hnone q hq
    apply (h.free_iff q).mpr
    rintro ⟨y, hy, hfile, rfl⟩
    exact hnone y hy hfile hq

theorem Progress.fits_iff {x : Item κ} (hx : x.path ≠ []) (hnew : ∀ y ∈ done, y.path ≠ x.path) :
    Fits fs x ↔ ∀ y ∈ done, Compatible x y := by
  cases hc : x.content with
  | none =>
    simp only [Fits, hc, h.passable_iff]
    apply forall₂_congr
    intro y hy
    simp [Compatible, Above, hc]
  | some c =>
    simp only [Fits, hc, h.passable_iff]
    have hdir : fs x.path ≠ some .dir ↔ ∀ y ∈ done, ¬ x.path <+: y.path := by
      rw [ne_eq, h.dir]
      constructor
      · intro hn y hy hpre
        exact hn (.inr ⟨y, hy, hpre, .inr (hnew y hy).symm⟩)
      · rintro hn (hnil | ⟨y, hy, hpre, -⟩)
        · exact hx hnil
        · exact hn y hy hpre
    rw [hdir, ← forall₂_and]
    apply forall₂_congr
    intro y hy
    have hpre : y.path <+: x.path.dropLast ↔ y.path <+: x.path := by
      rw [prefix_dropLast_iff hx]
      exact ⟨And.left, fun hp => ⟨hp, hnew y hy⟩⟩
    rw [hpre]
    simp only [Compatible, Above, hc, Option.isSome_some, true_and, not_and]
    exact and_comm

theorem Progress.place_dir {x : Item κ} (hc : x.content = none) (hfits : Fits fs x) :
    Progress (x :: done) (place fs x) := by
  simp only [Fits, hc] at hfits
  have hplace (p : Path) : place fs x p = if p <+: x.path ∧ fs p = none then some .dir else fs p := by
    simp [place, hc, Files.makeDirs]
  constructor
  · intro p
    have hsame : (place fs x).isFile p = fs.isFile p := by
      simp only [Files.isFile, hplace]
      by_cases hn : p <+: x.path ∧ fs p = none
      · rw [if_pos hn, hn.2]
      · rw [if_neg hn]
    rw [hsame, h.file]
    simp [hc]
  · intro p
    have hnew : place fs x p = some .dir ↔ fs p = some .dir ∨ p <+: x.path := by
      rw [hplace]
      exact made_eq_dir_iff (hfits p)
    rw [hnew, h.dir]
    simp only [List.exists_mem_cons_iff, hc, true_or, and_true]
    rw [or_assoc]
    exact or_congr_right or_comm
  · intro p t
    rw [hplace]
    split
    · simp
    · exact h.noLink p t

theorem Progress.place_file {x : Item κ} {c : κ} (hx : x.path ≠ []) (hc : x.content = some c)
    (hfits : Fits fs x) : Progress (x :: done) (place fs x) := by
  simp only [Fits, hc] at hfits
  obtain ⟨hpass, hnodir⟩ := hfits
  have hself : place fs x x.path = some (.file c) := by simp [place, hc, Files.put]
  have hother {p : Path} (hp : p ≠ x.path) :
      place fs x p = if p <+: x.path.dropLast ∧ fs p = none then some .dir else fs p := by
    simp [place, hc, Files.put, hp, Files.makeDirs]
  constructor
  · intro p
    by_cases hp : p = x.path
    · subst hp
      simp [Files.isFile, hself, hc]
    · have hsame : (place fs x).isFile p = fs.isFile p := by
        simp only [Files.isFile, hother hp]
        by_cases hn : p <+: x.path.dropLast ∧ fs p = none
        · rw [if_pos hn, hn.2]
        · rw [if_neg hn]
      rw [hsame, h.file]
      simp [Ne.symm hp]
  · intro p
    by_cases hp : p = x.path
    · -- a directory that is listed at the place of the file would have been in its way
      subst hp
      rw [hself]
      have hn := (h.dir x.path).not.mp hnodir
      simp only [reduceCtorEq, Option.some.injEq, false_iff, List.mem_cons, not_or]
      refine ⟨hx, ?_⟩
      rintro ⟨y, rfl | hy, hpre, hk⟩
      · simp [hc] at hk
      · exact hn (.inr ⟨y, hy, hpre, hk⟩)
    · have hnew : place fs x p = some .dir ↔ fs p = some .dir ∨ p <+: x.path.dropLast := by
        rw [hother hp]
        exact made_eq_dir_iff (hpass p)
      rw [hnew, h.dir, prefix_dropLast_iff hx]
      simp only [List.exists_mem_cons_iff, hc, ne_eq, hp, not_false_eq_true, reduceCtorEq, or_true,
        and_true]
      rw [or_assoc]
      exact or_congr_right or_comm
  · intro p t
    by_cases hp : p = x.path
    · subst hp
      simp [hself]
    · rw [hother hp]
      split
      · simp
      · exact h.noLink p t

theorem Progress.step {x : Item κ} (hx : x.path ≠ []) (hfits : Fits fs x) :
    Progress (x :: done) (place fs x) := by
  cases hc : x.content with
  | none => exact h.place_dir hc hfits
  | some c => exact h.place_file hx hc hfits

end Step

theorem Progress.above {done : List (Item κ)} {fs : Files κ} (h : Progress done fs) {p q : Path}
    (hq : fs q ≠ none) (hpre : p <+: q) (hne : p ≠ q) : fs p = some .dir := by
  rw [h.dir]
  cases hnode : fs q with
  | none => exact absurd hnode hq
  | some node =>
    cases node with
    | dir =>
      rcases (h.dir q).mp hnode with rfl | ⟨x, hx, hbelow, -⟩
      · exact absurd (List.prefix_nil.mp hpre) hne
      · right
        refine ⟨x, hx, hpre.trans hbelow, .inr ?_⟩
        rintro rfl
        exact hne (hpre.eq_of_length (Nat.le_antisymm hpre.length_le hbelow.length_le))
    | file c =>
      obtain ⟨x, hx, -, rfl⟩ := (h.file q).mp (by rw [Files.isFile, hnode])
      exact .inr ⟨x, hx, hpre, .inr hne⟩
    | link t => exact absurd hnode (h.noLink q t)

theorem place_file_iff {fs : Files κ} {x : Item κ} (hnew : ∀ c, fs x.path ≠ some (.file c))
    {p : Path} {c : κ} : place fs x p = some (.file c) ↔
      fs p = some (.file c) ∨ x.path = p ∧ x.content = some c := by
  have hdirs (q : Path) : fs.makeDirs q p = some (.file c) ↔ fs p = some (.file c) := by
    rw [Files.makeDirs]
    split
    · rename_i hnone
      rw [hnone.2]
      simp
    · rfl
  cases hc : x.content with
  | none =>
    rw [place, hc]
    dsimp only
    rw [hdirs]
    simp
  | some content =>
    rw [place, hc]
    dsimp only
    by_cases hp : x.path = p
    · subst hp
      rw [Files.put, Function.update_self]
      constructor
      · rintro h
        cases h
        exact .inr ⟨rfl, rfl⟩
      · rintro (h | ⟨-, h⟩)
        · exact absurd h (hnew c)
        · rw [Option.some.inj h]
    · rw [Files.put, Function.update_of_ne (Ne.symm hp), hdirs]
      simp [hp]

theorem Progress.run {done : List (Item κ)} {fs : Files κ} (h : Progress done fs)
    {xs : List (Item κ)} (hx : ∀ x ∈ xs, x.path ≠ []) (hfits : FitsAll fs xs) :
    Progress (xs.reverse ++ done) (placeAll fs xs) := by
  induction xs generalizing done fs with
  | nil => simpa [placeAll] using h
  | cons x xs ih =>
    have hstep := h.step (hx x (List.mem_cons_self ..)) hfits.1
    have hrest := ih hstep (fun y hy => hx y (List.mem_cons_of_mem _ hy)) hfits.2
    simpa [placeAll] using hrest

theorem fresh_cons {done xs : List (Item κ)} {x : Item κ} (hx : x.path ∉ xs.map Item.path)
    (h : ∀ y ∈ x :: xs, ∀ z ∈ done, z.path ≠ y.path) :
    ∀ y ∈ xs, ∀ z ∈ x :: done, z.path ≠ y.path := by
  intro y hy z hz
  rcases List.mem_cons.mp hz with rfl | hz
  · intro he
    exact hx (he ▸ List.mem_map_of_mem hy)
  · exact h y (List.mem_cons_of_mem _ hy) z hz

theorem Progress.placeAll_file_iff {done : List (Item κ)} {fs : Files κ} (h : Progress done fs)
    {xs : List (Item κ)} (hx : ∀ x ∈ xs, x.path ≠ []) (hnodup : (xs.map Item.path).Nodup)
    (hnew : ∀ x ∈ xs, ∀ y ∈ done, y.path ≠ x.path) (hfits : FitsAll fs xs) {p : Path} {c : κ} :
    placeAll fs xs p = some (.file c) ↔
      fs p = some (.file c) ∨ ∃ x ∈ xs, x.path = p ∧ x.content = some c := by
  induction xs generalizing done fs with
  | nil => simp [placeAll]
  | cons x xs ih =>
    rw [List.map_cons, List.nodup_cons] at hnodup
    have hfree : ∀ c, fs x.path ≠ some (.file c) := by
      intro c hfile
      obtain ⟨y, hy, -, hsame⟩ := (h.file x.path).mp (by rw [Files.isFile, hfile])
      exact hnew x (List.mem_cons_self ..) y hy hsame
    have hfresh := fresh_cons hnodup.1 hnew
    have hrest := ih (h.step (hx x (List.mem_cons_self ..)) hfits.1)
      (fun y hy => hx y (List.mem_cons_of_mem _ hy)) hnodup.2 hfresh hfits.2
    rw [placeAll, List.foldl_cons]
    rw [placeAll] at hrest
    rw [hrest, place_file_iff hfree, or_assoc]
    simp only [List.exists_mem_cons_iff]

theorem Progress.fitsAll_iff {done : List (Item κ)} {fs : Files κ} (h : Progress done fs)
    {xs : List (Item κ)} (hx : ∀ x ∈ xs, x.path ≠ []) (hnodup : (xs.map Item.path).Nodup)
    (hnew : ∀ x ∈ xs, ∀ y ∈ done, y.path ≠ x.path) :
    FitsAll fs xs ↔ (∀ x ∈ xs, ∀ y ∈ done, Compatible x y) ∧ xs.Pairwise Compatible := by
  induction xs generalizing done fs with
  | nil => simp [FitsAll]
  | cons x xs ih =>
    rw [List.map_cons, List.nodup_cons] at hnodup
    have hxs : ∀ y ∈ xs, y.path ≠ [] := fun y hy => hx y (List.mem_cons_of_mem _ hy)
    have hone := h.fits_iff (hx x (List.mem_cons_self ..)) (hnew x (List.mem_cons_self ..))
    have hfresh := fresh_cons hnodup.1 hnew
    constructor
    · rintro ⟨hfits, hall⟩
      have hrest := (ih (h.step (hx x (List.mem_cons_self ..)) hfits) hxs hnodup.2 hfresh).mp hall
      constructor
      · intro y hy z hz
        rcases List.mem_cons.mp hy with rfl | hy
        · exact hone.mp hfits z hz
        · exact hrest.1 y hy z (List.mem_cons_of_mem _ hz)
      · apply List.pairwise_cons.mpr
        refine ⟨fun y hy => ?_, hrest.2⟩
        exact (hrest.1 y hy x (List.mem_cons_self ..)).symm
    · rintro ⟨hdone, hpair⟩
      obtain ⟨hhead, htail⟩ := List.pairwise_cons.mp hpair
      have hfits := hone.mpr (hdone x (List.mem_cons_self ..))
      refine ⟨hfits, (ih (h.step (hx x (List.mem_cons_self ..)) hfits) hxs hnodup.2 hfresh).mpr ?_⟩
      refine ⟨?_, htail⟩
      intro y hy z hz
      rcases List.mem_cons.mp hz with rfl | hz
      · exact (hhead y hy).symm
      · exact hdone y (List.mem_cons_of_mem _ hy) z hz

theorem fitsAll_empty_iff {xs : List (Item κ)} (hx : ∀ x ∈ xs, x.path ≠ [])
    (hnodup : (xs.map Item.path).Nodup) :
    FitsAll empty xs ↔ ∀ x ∈ xs, ∀ y ∈ xs, Above x y → x.path = y.path := by
  rw [Progress.init.fitsAll_iff hx hnodup (by simp)]
  have hpaths : ∀ x ∈ xs, ∀ y ∈ xs, x.path = y.path → x = y := fun x hx' y hy he =>
    List.inj_on_of_nodup_map hnodup hx' hy he
  simp only [List.not_mem_nil, false_implies, implies_true, true_and]
  constructor
  · intro hpair x hx' y hy habove
    by_contra hne
    have hxy : x ≠ y := fun he => hne (he ▸ rfl)
    have hcompat := hpair.forall hx' hy hxy
    exact hcompat.1 habove
  · intro hall
    have hnd : xs.Nodup := List.Nodup.of_map _ hnodup
    apply List.Nodup.pairwise_of_forall_ne hnd
    intro x hx' y hy hne
    constructor
    · intro habove
      exact hne (hpaths x hx' y hy (hall x hx' y hy habove))
    · intro habove
      exact hne (hpaths x hx' y hy (hall y hy x hx' habove).symm)

end LandscapeKit.Unpack
