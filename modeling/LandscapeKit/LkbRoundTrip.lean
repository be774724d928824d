import Mathlib.Data.List.Forall2
import LandscapeKit.LkbArchive
import LandscapeKit.LkbReaders

/-!
A backup that was written is unpacked to the files it was made from, exactly when no name in
its two trees holds a colon or a backslash. The writer takes every UTF-8 name, the reader
refuses these two characters.
-/

namespace LandscapeKit.Lkb

open Bytes Formats

def Plain (part : String) : Prop := ':' ∉ part.toList ∧ '\\' ∉ part.toList

instance (part : String) : Decidable (Plain part) := inferInstanceAs (Decidable (_ ∧ _))

/-! Names of entries. -/

structure Represents (e : TarEntry) (x : Path × Node Bytes) : Prop where
  relative : isAbsolute e.name = false
  path : (parts e.name).filter (· ≠ "") = x.1
  node : (e.kind = .dir ∧ x.2 = .dir) ∨ (e.kind = .file ∧ x.2 = .file e.content)

section Names

theorem collectParts_plain {ps : List String} (hdots : ∀ p ∈ ps, p ≠ "." ∧ p ≠ "..")
    (hplain : ∀ p ∈ ps, ':' ∉ p.toList) : collectParts ps = .ok (ps.filter (· ≠ "")) := by
  induction ps with
  | nil => rfl
  | cons p ps ih =>
    have hrest := ih (fun q hq => hdots q (List.mem_cons_of_mem _ hq))
      (fun q hq => hplain q (List.mem_cons_of_mem _ hq))
    have hp := hdots p (List.mem_cons_self ..)
    have hc := hplain p (List.mem_cons_self ..)
    by_cases hempty : p = ""
    · simp [collectParts, hempty, hrest]
    · simp [collectParts, hempty, hp.1, hp.2, hc, hrest, Except.map]

theorem collectParts_colon {ps : List String} {p : String} (hp : p ∈ ps) (hc : ':' ∈ p.toList) :
    ∃ error, collectParts ps = .error error := by
  induction ps with
  | nil => simp at hp
  | cons q ps ih =>
    unfold collectParts
    split
    · rename_i hq
      refine ih ((List.mem_cons.mp hp).resolve_left ?_)
      rintro rfl
      simp [hq] at hc
    split
    · exact ⟨_, rfl⟩
    split
    · exact ⟨_, rfl⟩
    · rename_i _ _ hq
      obtain ⟨error, he⟩ := ih ((List.mem_cons.mp hp).resolve_left fun h => hq (h ▸ hc))
      exact ⟨error, by rw [he]; rfl⟩

variable {e : TarEntry} {x : Path × Node Bytes}

theorem Represents.mem_name_iff (h : Represents e x) {c : Char} (hc : c ≠ '/') :
    c ∈ e.name.toList ↔ ∃ part ∈ x.1, c ∈ part.toList := by
  rw [mem_toList_iff_parts hc, ← h.path]
  constructor
  · rintro ⟨part, hp, hmem⟩
    refine ⟨part, List.mem_filter.mpr ⟨hp, ?_⟩, hmem⟩
    simp only [decide_eq_true_eq]
    rintro rfl
    simp at hmem
  · rintro ⟨part, hp, hmem⟩
    exact ⟨part, (List.mem_filter.mp hp).1, hmem⟩

theorem Represents.zipPathParts_eq (h : Represents e x)
    (hvalid : ∀ part ∈ x.1, (OsName.utf8 part).Valid) (hplain : ∀ part ∈ x.1, Plain part) :
    zipPathParts e.name = .ok x.1 := by
  have hslash : ¬ ('\\' ∈ e.name.toList ∨ '\x00' ∈ e.name.toList) := by
    rw [h.mem_name_iff (by decide), h.mem_name_iff (by decide)]
    rintro (⟨part, hp, hc⟩ | ⟨part, hp, hc⟩)
    · exact (hplain part hp).2 hc
    · exact (hvalid part hp).2.2 hc
  -- an empty part is neither a dot segment nor holds a colon
  have hall : ∀ p ∈ parts e.name, (p ≠ "." ∧ p ≠ "..") ∧ ':' ∉ p.toList := by
    intro p hp
    by_cases hempty : p = ""
    · subst hempty
      decide
    · have hmem : p ∈ x.1 := by
        rw [← h.path]
        exact List.mem_filter.mpr ⟨hp, by simpa using hempty⟩
      exact ⟨(hvalid p hmem).1.2, (hplain p hmem).1⟩
  rw [zipPathParts, if_neg hslash, collectParts_plain (fun p hp => (hall p hp).1)
    (fun p hp => (hall p hp).2), h.path]

theorem joined_inj {ps qs : List String} (hps : ∀ p ∈ ps, '/' ∉ p.toList)
    (hqs : ∀ q ∈ qs, '/' ∉ q.toList) (hp : ps ≠ []) (hq : qs ≠ []) (h : joined ps = joined qs) :
    ps = qs := by
  have hl : List.intercalate ['/'] (ps.map String.toList) =
      List.intercalate ['/'] (qs.map String.toList) := by
    simpa [joined] using congrArg String.toList h
  have hsplit (rs : List String) (hrs : ∀ r ∈ rs, '/' ∉ r.toList) (hr : rs ≠ []) :
      (List.intercalate ['/'] (rs.map String.toList)).splitOn '/' = rs.map String.toList := by
    apply List.splitOn_intercalate
    · intro l hl
      obtain ⟨r, hr, rfl⟩ := List.mem_map.mp hl
      exact hrs r hr
    · simpa using hr
  have hmap := congrArg (List.splitOn '/') hl
  rw [hsplit ps hps hp, hsplit qs hqs hq] at hmap
  exact List.map_injective_iff.mpr (fun _ _ he => String.toList_inj.mp he) hmap

end Names

/-! Unpacking what represents a tree. -/

structure Consistent (L : List (Path × Node Bytes)) : Prop where
  nodup : (L.map Prod.fst).Nodup
  nonempty : ∀ {p n}, (p, n) ∈ L → p ≠ []
  parents : ∀ {p n q}, (p, n) ∈ L → q <+: p → q ≠ p → q ≠ [] → (q, .dir) ∈ L
  names : ∀ {p n}, (p, n) ∈ L → ∀ part ∈ p, (OsName.utf8 part).Valid
  staticZip : (["static.zip"], .dir) ∉ L

theorem Consistent.functional {L : List (Path × Node Bytes)} (hL : Consistent L) {p : Path}
    {n m : Node Bytes} (hn : (p, n) ∈ L) (hm : (p, m) ∈ L) : n = m := by
  have h := List.inj_on_of_nodup_map hL.nodup hn hm rfl
  exact (Prod.mk.inj h).2

structure Progress (L done : List (Path × Node Bytes)) (st : Unpacked) : Prop where
  root : st.fs [] = some .dir
  within : ∀ {p n}, st.fs p = some n → p ≠ [] → (p, n) ∈ L
  there : ∀ {p n}, (p, n) ∈ done → st.fs p = some n
  fresh : ∀ {p c}, st.fs p = some (.file c) → (p, .file c) ∈ done
  files : ∀ {p c}, (p, .file c) ∈ done → joined p ∈ st.files
  dirs : ∀ {p}, (p, .dir) ∈ done → joined p ∈ st.dirs

section Unpack

variable {L done : List (Path × Node Bytes)} {st : Unpacked}

theorem Progress.createSecureDir (hL : Consistent L) (h : Progress L done st) {q : Path}
    (hq : ∀ r, r <+: q → r ≠ [] → (r, .dir) ∈ L) :
    Lkb.createSecureDir st.fs q = .ok (st.fs.makeDirs q) ∧
      (∀ r, r <+: q → st.fs.makeDirs q r = some .dir) ∧
      Progress L done { st with fs := st.fs.makeDirs q } := by
  have hdirs : ∀ r, r <+: q → st.fs r = none ∨ st.fs r = some .dir := by
    intro r hr
    by_cases hroot : r = []
    · exact .inr (hroot ▸ h.root)
    · cases hn : st.fs r with
      | none => exact .inl rfl
      | some n => rw [hL.functional (h.within hn hroot) (hq r hr hroot)]; exact .inr rfl
  have hmade (r : Path) (hr : r <+: q) : st.fs.makeDirs q r = some .dir := by
    unfold Files.makeDirs
    rcases hdirs r hr with hn | hn
    · rw [if_pos ⟨hr, hn⟩]
    · rw [if_neg (by simp [hn]), hn]
  have hkept {r : Path} {n : Node Bytes} (hn : st.fs r = some n) :
      st.fs.makeDirs q r = some n := by
    unfold Files.makeDirs
    rw [if_neg (by simp [hn]), hn]
  have hnew {r : Path} {n : Node Bytes} (hn : st.fs.makeDirs q r = some n) :
      st.fs r = some n ∨ (r <+: q ∧ n = .dir) := by
    unfold Files.makeDirs at hn
    split at hn
    · rename_i hc
      exact .inr ⟨hc.1, (Option.some.inj hn).symm⟩
    · exact .inl hn
  refine ⟨if_pos fun r hr => hdirs r ((List.mem_inits r q).mp hr), hmade, ?_⟩
  refine ⟨hkept h.root, ?_, fun hm => hkept (h.there hm), ?_, h.files, h.dirs⟩
  · intro p n hn hp
    rcases hnew hn with hn | ⟨hpre, rfl⟩
    · exact h.within hn hp
    · exact hq p hpre hp
  · intro p c hc
    rcases hnew hc with hc | ⟨-, hbad⟩
    · exact h.fresh hc
    · cases hbad

theorem Progress.unpackEntry (hL : Consistent L) (h : Progress L done st) {e : TarEntry}
    {x : Path × Node Bytes} (he : Represents e x) (hx : x ∈ L) (hnew : x.1 ∉ done.map Prod.fst)
    (hplain : ∀ part ∈ x.1, Plain part) :
    ∃ st', Lkb.unpackEntry st e = .ok st' ∧ Progress L (x :: done) st' := by
  obtain ⟨p, n⟩ := x
  have hp := hL.nonempty hx
  have hparts := he.zipPathParts_eq (hL.names hx) hplain
  have hback : ¬ (isAbsolute e.name = true ∨ '\\' ∈ e.name.toList) := by
    rw [he.relative, he.mem_name_iff (by decide)]
    rintro (hf | ⟨part, hm, hc⟩)
    · cases hf
    · exact (hplain part hm).2 hc
  obtain ⟨a, ps, rfl⟩ : ∃ a ps, p = a :: ps := List.exists_cons_of_ne_nil hp
  unfold Lkb.unpackEntry
  rw [if_neg hback, hparts]
  dsimp only
  rcases he.node with ⟨hk, hn⟩ | ⟨hk, hn⟩
  · -- a directory, with the directories above it
    have hn' : n = .dir := hn
    subst hn'
    have hzip : ¬ (joined (a :: ps) = "static.zip" ∧ e.kind ≠ .file) := by
      rintro ⟨hj, -⟩
      have heq : a :: ps = ["static.zip"] :=
        joined_inj (fun q hq => (hL.names hx q hq).2.1) (by decide) hp (by simp) hj
      exact hL.staticZip (heq ▸ hx)
    obtain ⟨hmk, hthere, hprog⟩ := h.createSecureDir hL (q := a :: ps) fun r hr hroot => by
      by_cases hrp : r = a :: ps
      · exact hrp ▸ hx
      · exact hL.parents hx hr hrp hroot
    rw [if_neg (by simp [hk]), if_neg hzip, if_pos hk, hmk]
    refine ⟨_, rfl, hprog.root, hprog.within, ?_, ?_, ?_, ?_⟩
    · rintro p' n' hm
      rcases List.mem_cons.mp hm with hm | hm
      · cases hm
        exact hthere _ List.prefix_rfl
      · exact hprog.there hm
    · exact fun hc => List.mem_cons_of_mem _ (hprog.fresh hc)
    · intro p' c hm
      rcases List.mem_cons.mp hm with hm | hm
      · cases hm
      · exact hprog.files hm
    · intro p' hm
      rcases List.mem_cons.mp hm with hm | hm
      · cases hm
        exact List.mem_cons_self ..
      · exact List.mem_cons_of_mem _ (hprog.dirs hm)
  · -- a regular file, in its directory
    have hn' : n = .file e.content := hn
    subst hn'
    obtain ⟨hmk, -, hprog⟩ := h.createSecureDir hL (q := (a :: ps).dropLast) fun r hr hroot => by
      have hlt : r.length < (a :: ps).length := by
        have hle := hr.length_le
        simp only [List.length_dropLast, List.length_cons] at hle ⊢
        omega
      refine hL.parents hx (hr.trans (List.dropLast_prefix _)) ?_ hroot
      rintro rfl
      exact lt_irrefl _ hlt
    have hnone : st.fs.makeDirs (a :: ps).dropLast (a :: ps) = none := by
      cases hfs : st.fs.makeDirs (a :: ps).dropLast (a :: ps) with
      | none => rfl
      | some m =>
        have hm : m = .file e.content := hL.functional (hprog.within hfs hp) hx
        have hdone := hprog.fresh (hm ▸ hfs)
        exact absurd (List.mem_map_of_mem hdone) hnew
    rw [if_neg (by simp [hk]), if_neg (by simp [hk]), if_neg (by simp [hk]), hmk]
    refine ⟨⟨(st.fs.makeDirs (a :: ps).dropLast).put (a :: ps) (.file e.content),
      joined (a :: ps) :: st.files, st.dirs⟩,
      by simp only [createFileMode, hnone, if_true, bind, Except.bind, pure, Except.pure],
      ?_, ?_, ?_, ?_, ?_, ?_⟩
    · simpa [Files.put] using hprog.root
    · intro p' n' hfs hp'
      by_cases heq : p' = a :: ps
      · subst heq
        simp only [Files.put, Function.update_self, Option.some.injEq] at hfs
        exact hfs ▸ hx
      · simp only [Files.put, Function.update_of_ne heq] at hfs
        exact hprog.within hfs hp'
    · intro p' n' hm
      rcases List.mem_cons.mp hm with hm | hm
      · cases hm
        simp [Files.put]
      · have hne : p' ≠ a :: ps := by
          rintro rfl
          exact hnew (List.mem_map.mpr ⟨_, hm, rfl⟩)
        simpa only [Files.put, Function.update_of_ne hne] using hprog.there hm
    · intro p' c hfs
      by_cases heq : p' = a :: ps
      · subst heq
        simp only [Files.put, Function.update_self, Option.some.injEq] at hfs
        exact hfs ▸ List.mem_cons_self ..
      · simp only [Files.put, Function.update_of_ne heq] at hfs
        exact List.mem_cons_of_mem _ (hprog.fresh hfs)
    · intro p' c hm
      rcases List.mem_cons.mp hm with hm | hm
      · cases hm
        exact List.mem_cons_self ..
      · exact List.mem_cons_of_mem _ (hprog.files hm)
    · intro p' hm
      rcases List.mem_cons.mp hm with hm | hm
      · cases hm
      · exact hprog.dirs hm

theorem Progress.unpack (hL : Consistent L) (h : Progress L done st) {es : List TarEntry}
    {xs : List (Path × Node Bytes)} (hrep : List.Forall₂ Represents es xs) (hsub : xs ⊆ L)
    (hnodup : ((done ++ xs).map Prod.fst).Nodup)
    (hplain : ∀ x ∈ xs, ∀ part ∈ x.1, Plain part) :
    ∃ st', es.foldlM Lkb.unpackEntry st = .ok st' ∧ ∃ done', Progress L done' st' ∧
      ∀ x, x ∈ done' ↔ x ∈ done ∨ x ∈ xs := by
  induction hrep generalizing done st with
  | nil => exact ⟨st, rfl, done, h, by simp⟩
  | @cons e x es xs he _ ih =>
    have hnew : x.1 ∉ done.map Prod.fst := by
      intro hm
      rw [List.map_append, List.map_cons, List.nodup_append] at hnodup
      exact hnodup.2.2 _ hm _ (List.mem_cons_self ..) rfl
    obtain ⟨st', hst', hprog⟩ := h.unpackEntry hL he (hsub (List.mem_cons_self ..)) hnew
      (hplain x (List.mem_cons_self ..))
    have hperm : (done ++ x :: xs).Perm (x :: done ++ xs) := List.perm_middle
    have hnodup' : ((x :: done ++ xs).map Prod.fst).Nodup := (hperm.map _).nodup_iff.mp hnodup
    obtain ⟨st'', hst'', done', hdone', hmem⟩ := ih hprog
      (fun y hy => hsub (List.mem_cons_of_mem _ hy)) hnodup'
      (fun y hy => hplain y (List.mem_cons_of_mem _ hy))
    refine ⟨st'', ?_, done', hdone', fun y => ?_⟩
    · rw [List.foldlM_cons, hst']
      exact hst''
    · rw [hmem, List.mem_cons, List.mem_cons]
      tauto

theorem progress_empty (L : List (Path × Node Bytes)) : Progress L [] ⟨emptyDir, [], []⟩ := by
  refine ⟨rfl, ?_, nofun, ?_, nofun, nofun⟩
  · intro p n hn hp
    simp [emptyDir, hp] at hn
  · intro p c hc
    simp only [emptyDir] at hc
    split at hc
    · cases hc
    · cases hc

end Unpack

theorem unpackEntry_refused {e : TarEntry} {x : Path × Node Bytes} (he : Represents e x)
    (hbad : ∃ part ∈ x.1, ¬ Plain part) (st : Unpacked) :
    ∃ fault, unpackEntry st e = .error fault := by
  obtain ⟨part, hp, hpart⟩ := hbad
  unfold unpackEntry
  by_cases hback : '\\' ∈ e.name.toList
  · rw [if_pos (.inr hback)]
    exact ⟨_, rfl⟩
  · have hcolon : ':' ∈ part.toList := by
      by_contra hc
      exact hpart ⟨hc, fun hb => hback ((he.mem_name_iff (by decide)).mpr ⟨part, hp, hb⟩)⟩
    have hmem : part ∈ parts e.name := (List.mem_filter.mp (he.path ▸ hp)).1
    obtain ⟨error, herror⟩ := collectParts_colon hmem hcolon
    have hparts : ∃ error, zipPathParts e.name = .error error := by
      unfold zipPathParts
      split
      · exact ⟨_, rfl⟩
      · exact ⟨error, herror⟩
    obtain ⟨error', herror'⟩ := hparts
    rw [if_neg (by simp [he.relative, hback]), herror']
    exact ⟨_, rfl⟩

theorem unpack_refused {es : List TarEntry} {xs : List (Path × Node Bytes)}
    (hrep : List.Forall₂ Represents es xs) (hbad : ∃ x ∈ xs, ∃ part ∈ x.1, ¬ Plain part)
    (st : Unpacked) : ∃ fault, es.foldlM unpackEntry st = .error fault := by
  induction hrep generalizing st with
  | nil => simp at hbad
  | @cons e x es xs he _ ih =>
    rw [List.foldlM_cons]
    cases hst : unpackEntry st e with
    | error fault => exact ⟨fault, rfl⟩
    | ok st' =>
      obtain ⟨y, hy, hpart⟩ := hbad
      rcases List.mem_cons.mp hy with rfl | hy
      · obtain ⟨fault, hf⟩ := unpackEntry_refused he hpart st
        rw [hf] at hst
        cases hst
      · exact ih ⟨y, hy, hpart⟩ st'

/-! What the walk over a tree appends. -/

def RepresentsAll (es : List TarEntry) (L : List (Path × Node Bytes)) : Prop :=
  ∃ xs, List.Forall₂ Represents es xs ∧ xs.Perm L

section Walk

structure Pending (x : Listing Bytes × String) : Prop where
  wellFormed : x.1.WellFormed
  relative : isAbsolute x.2 = false
  names : ∀ part ∈ parts x.2, part ≠ ""

def pendingPaths (x : Listing Bytes × String) : List (Path × Node Bytes) := x.1.paths (parts x.2)

theorem isAbsolute_append {rel : String} (name : String) (h : isAbsolute rel = false)
    (hne : ∀ part ∈ parts rel, part ≠ "") : isAbsolute (rel ++ "/" ++ name) = false := by
  have hrel : rel.toList ≠ [] := by
    intro hnil
    have hempty : rel = "" := String.toList_inj.mp (by simpa using hnil)
    exact hne "" (by simp [hempty, parts]) rfl
  obtain ⟨c, cs, hcs⟩ := List.exists_cons_of_ne_nil hrel
  simpa [isAbsolute, String.toList_append, hcs] using h

variable {rel name : String}

theorem Pending.child {listing : Listing Bytes} {l : Listing Bytes} (h : Pending (l, rel))
    (hname : (OsName.utf8 name).Valid) (hl : listing.WellFormed) :
    Pending (listing, rel ++ "/" ++ name) where
  wellFormed := hl
  relative := isAbsolute_append name h.relative h.names
  names part hp := by
    rw [parts_append_slash _ _ hname.2.1, List.mem_append, List.mem_singleton] at hp
    rcases hp with hp | rfl
    · exact h.names part hp
    · exact hname.1.1

theorem Pending.represents {l : Listing Bytes} (h : Pending (l, rel))
    (hname : (OsName.utf8 name).Valid) {e : TarEntry} (he : e.name = rel ++ "/" ++ name)
    {n : Node Bytes}
    (hn : (e.kind = .dir ∧ n = .dir) ∨ (e.kind = .file ∧ n = .file e.content)) :
    Represents e (parts rel ++ [name], n) where
  relative := by
    rw [he]
    exact isAbsolute_append name h.relative h.names
  path := by
    rw [he, parts_append_slash _ _ hname.2.1]
    refine List.filter_eq_self.mpr fun part hp => ?_
    rcases List.mem_append.mp hp with hp | hp
    · simpa using h.names part hp
    · simpa [List.mem_singleton.mp hp] using hname.1.1
  node := hn

theorem appendListing_spec {listing : Listing Bytes} {es : List TarEntry}
    {pushed : List (Listing Bytes × String)} (h : Pending (listing, rel))
    (happ : appendListing rel listing = .ok (es, pushed)) :
    (∃ xs, List.Forall₂ Represents es xs ∧
      (xs ++ pushed.flatMap pendingPaths).Perm (listing.paths (parts rel))) ∧
    (∀ x ∈ pushed, Pending x) ∧ (pushed.map fun x => x.1.dirs + 1).sum = listing.dirs := by
  induction listing using appendListing.induct generalizing es pushed with
  | case1 =>
    cases happ
    exact ⟨⟨[], .nil, .refl _⟩, nofun, rfl⟩
  | case2 => cases happ
  | case3 => cases happ
  | case4 => cases happ
  | case5 name listing rest ih =>
    obtain ⟨hv, -, hl, hr⟩ := h.wellFormed
    simp only [appendListing, bind_eq_ok, pure_eq_ok, Prod.mk.injEq] at happ
    obtain ⟨⟨es', pushed'⟩, hrest, rfl, rfl⟩ := happ
    obtain ⟨⟨xs, hxs, hperm⟩, hpend, hsum⟩ := ih ⟨hr, h.relative, h.names⟩ hrest
    refine ⟨⟨(parts rel ++ [name], .dir) :: xs,
      .cons (h.represents hv rfl (.inl ⟨rfl, rfl⟩)) hxs, ?_⟩, ?_, ?_⟩
    · have hchild : pendingPaths (listing, rel ++ "/" ++ name) =
          listing.paths (parts rel ++ [name]) := by
        simp [pendingPaths, parts_append_slash _ _ hv.2.1]
      simp only [List.flatMap_cons, hchild, Listing.paths, Entry.paths, List.cons_append]
      refine .cons _ ?_
      rw [← List.append_assoc]
      refine (List.perm_append_comm.append_right _).trans ?_
      rw [List.append_assoc]
      exact hperm.append_left _
    · intro x hx
      rcases List.mem_cons.mp hx with rfl | hx
      · exact h.child hv hl
      · exact hpend x hx
    · simp only [List.map_cons, List.sum_cons, hsum, Listing.dirs]
  | case6 name content rest ih =>
    obtain ⟨hv, -, -, hr⟩ := h.wellFormed
    simp only [appendListing, bind_eq_ok, pure_eq_ok, Prod.mk.injEq] at happ
    obtain ⟨⟨es', pushed'⟩, hrest, rfl, rfl⟩ := happ
    obtain ⟨⟨xs, hxs, hperm⟩, hpend, hsum⟩ := ih ⟨hr, h.relative, h.names⟩ hrest
    refine ⟨⟨(parts rel ++ [name], .file content) :: xs,
      .cons (h.represents hv rfl (.inr ⟨rfl, rfl⟩)) hxs, ?_⟩, hpend, ?_⟩
    · simp only [Listing.paths, Entry.paths, List.cons_append, List.nil_append]
      exact hperm.cons _
    · simp only [hsum, Listing.dirs]

theorem appendLoop_spec {fuel : ℕ} {stack : List (Listing Bytes × String)} {es : List TarEntry}
    (hstack : ∀ x ∈ stack, Pending x)
    (hfuel : (stack.map fun x => x.1.dirs + 1).sum ≤ fuel)
    (happ : appendLoop fuel stack = .ok es) : RepresentsAll es (stack.flatMap pendingPaths) := by
  induction fuel generalizing stack es with
  | zero =>
    cases stack with
    | nil =>
      cases happ
      exact ⟨[], .nil, .refl _⟩
    | cons x stack => simp at hfuel
  | succ fuel ih =>
    cases stack with
    | nil =>
      cases happ
      exact ⟨[], .nil, .refl _⟩
    | cons x stack =>
      obtain ⟨listing, rel⟩ := x
      simp only [appendLoop, bind_eq_ok, pure_eq_ok] at happ
      obtain ⟨⟨here, pushed⟩, hhere, rest, hrest, rfl⟩ := happ
      obtain ⟨⟨xs, hxs, hperm⟩, hpend, hsum⟩ :=
        appendListing_spec (hstack _ (List.mem_cons_self ..)) hhere
      have hnext : ∀ x ∈ pushed.reverse ++ stack, Pending x := by
        intro x hx
        rcases List.mem_append.mp hx with hx | hx
        · exact hpend x (List.mem_reverse.mp hx)
        · exact hstack x (List.mem_cons_of_mem _ hx)
      -- the popped directory pays for those it pushed
      have hless : ((pushed.reverse ++ stack).map fun x => x.1.dirs + 1).sum ≤ fuel := by
        simp only [List.map_append, List.sum_append, List.map_reverse, List.sum_reverse, hsum]
        simp only [List.map_cons, List.sum_cons] at hfuel
        omega
      obtain ⟨ys, hys, hperm'⟩ := ih hnext hless hrest
      refine ⟨xs ++ ys, List.rel_append hxs hys, ?_⟩
      rw [List.flatMap_cons]
      have hrev : (pushed.reverse.flatMap pendingPaths).Perm (pushed.flatMap pendingPaths) :=
        (List.reverse_perm pushed).flatMap_right _
      rw [List.flatMap_append] at hperm'
      refine (hperm'.append_left xs).trans ?_
      rw [← List.append_assoc]
      exact (((hrev.append_left xs).trans hperm)).append_right _

theorem appendTree_spec {top : String} {listing : Listing Bytes} {es : List TarEntry}
    (htop : (OsName.utf8 top).Valid) (hl : listing.WellFormed)
    (happ : appendTree top listing = .ok es) :
    RepresentsAll es (([top], .dir) :: listing.paths [top]) := by
  have hparts : parts top = [top] := parts_of_not_mem htop.2.1
  simp only [appendTree, bind_eq_ok, pure_eq_ok] at happ
  obtain ⟨rest, hrest, rfl⟩ := happ
  have hpend : Pending (listing, top) :=
    ⟨hl, not_isAbsolute_of_not_mem htop.2.1, by simpa [hparts] using htop.1.1⟩
  obtain ⟨xs, hxs, hperm⟩ := appendLoop_spec (by simpa using hpend) (by simp) hrest
  refine ⟨([top], .dir) :: xs, .cons ⟨hpend.relative, ?_, .inl ⟨rfl, rfl⟩⟩ hxs, ?_⟩
  · simpa [hparts] using htop.1.1
  · simpa [pendingPaths, hparts] using hperm

end Walk

/-! The whole backup. -/

namespace Source

variable (src : Source)

def root (staticZip : Bytes) : Listing Bytes :=
  .cons (.utf8 "landscape-webserver") (.file src.webserver) <|
  .cons (.utf8 "landscape_init.toml") (.file src.initConfig) <|
  .cons (.utf8 "static.zip") (.file staticZip) <|
  .cons (.utf8 "static") (.dir (src.staticDir.getD .nil)) <|
  .cons (.utf8 "geo_tmp") (.dir (src.geoTmp.getD .nil)) .nil

def WellFormed : Prop :=
  (src.staticDir.getD .nil).WellFormed ∧ (src.geoTmp.getD .nil).WellFormed

def PlainNames : Prop :=
  (∀ x ∈ (src.staticDir.getD .nil).paths [], ∀ part ∈ x.1, Plain part) ∧
    ∀ x ∈ (src.geoTmp.getD .nil).paths [], ∀ part ∈ x.1, Plain part

def RestoredIn (fs : Files Bytes) : Prop :=
  ∃ staticZip, ∀ p n, fs p = some n ↔
    (p = [] ∧ n = .dir) ∨ (p, n) ∈ (src.root staticZip).paths []

variable {src}

theorem root_wellFormed (h : src.WellFormed) (staticZip : Bytes) :
    (src.root staticZip).WellFormed := by
  have hnames : ∀ name ∈ ["landscape-webserver", "landscape_init.toml", "static.zip", "static",
      "geo_tmp"], (OsName.utf8 name).Valid := by
    simp only [OsName.Valid]
    decide
  simp only [root, Listing.WellFormed, Entry.WellFormed, Listing.names]
  exact ⟨hnames _ (by simp), by decide, trivial, hnames _ (by simp), by decide, trivial,
    hnames _ (by simp), by decide, trivial, hnames _ (by simp), by decide, h.1,
    hnames _ (by simp), by decide, h.2, trivial⟩

theorem root_consistent (h : src.WellFormed) (staticZip : Bytes) :
    Consistent ((src.root staticZip).paths []) := by
  have hw := root_wellFormed h staticZip
  refine ⟨Listing.nodup_paths hw, ?_, ?_, ?_, ?_⟩
  · rintro p n hm rfl
    obtain ⟨name, -, hpre⟩ := Listing.name_prefix hm
    simp at hpre
  · intro p n q hm hq hne hroot
    exact Listing.parents_listed hm (List.nil_prefix) hroot hq hne
  · intro p n hm
    exact Listing.names_valid hw hm
  · intro hm
    have hfile : (["static.zip"], Node.file staticZip) ∈ (src.root staticZip).paths [] := by
      simp [root, Listing.paths, Entry.paths]
    have hsame := List.inj_on_of_nodup_map (Listing.nodup_paths hw) hm hfile rfl
    cases hsame

theorem tarEntries_represents (h : src.WellFormed) {static : Listing Bytes} {staticZip : Bytes}
    {es : List TarEntry} (hs : src.staticDir = some static)
    (hes : src.tarEntries static staticZip = .ok es) :
    RepresentsAll es ((src.root staticZip).paths []) := by
  have hfile (name : String) (hn : (OsName.utf8 name).Valid) (c : Bytes) :
      Represents ⟨name, .file, c⟩ ([name], .file c) := by
    refine ⟨not_isAbsolute_of_not_mem hn.2.1, ?_, .inr ⟨rfl, rfl⟩⟩
    simpa [parts_of_not_mem hn.2.1] using hn.1.1
  have hvalid : ∀ name ∈ ["landscape-webserver", "landscape_init.toml", "static.zip", "static",
      "geo_tmp"], (OsName.utf8 name).Valid := by
    simp only [OsName.Valid]
    decide
  simp only [tarEntries, bind_eq_ok, pure_eq_ok] at hes
  obtain ⟨tree, htree, geo, hgeo, rfl⟩ := hes
  have hstatic : static.WellFormed := by simpa [hs] using h.1
  obtain ⟨xs, hxs, hxperm⟩ := appendTree_spec (hvalid _ (by simp)) hstatic htree
  have hgeo' : RepresentsAll geo ((["geo_tmp"], .dir) :: (src.geoTmp.getD .nil).paths ["geo_tmp"]) := by
    unfold appendGeo at hgeo
    cases hg : src.geoTmp with
    | none =>
      rw [hg] at hgeo
      cases hgeo
      refine ⟨[(["geo_tmp"], .dir)], .cons ⟨by decide, by decide, .inl ⟨rfl, rfl⟩⟩ .nil, ?_⟩
      simp [Listing.paths]
    | some listing =>
      rw [hg] at hgeo
      have hl : listing.WellFormed := by simpa [hg] using h.2
      exact appendTree_spec (hvalid _ (by simp)) hl hgeo
  obtain ⟨ys, hys, hyperm⟩ := hgeo'
  refine ⟨_, .cons (hfile _ (hvalid _ (by simp)) _) (.cons (hfile _ (hvalid _ (by simp)) _)
    (.cons (hfile _ (hvalid _ (by simp)) _) (List.rel_append hxs hys))), ?_⟩
  simp only [root, Listing.paths, Entry.paths, hs, Option.getD_some, List.nil_append,
    List.singleton_append, List.append_nil]
  exact ((hxperm.append hyperm).cons _).cons _ |>.cons _

theorem plainNames_iff (staticZip : Bytes) :
    src.PlainNames ↔ ∀ x ∈ (src.root staticZip).paths [], ∀ part ∈ x.1, Plain part := by
  have htop : ∀ name ∈ ["landscape-webserver", "landscape_init.toml", "static.zip", "static",
      "geo_tmp"], Plain name := by decide
  have hbelow (top : String) (ht : Plain top) (listing : Listing Bytes) :
      (∀ x ∈ listing.paths [top], ∀ part ∈ x.1, Plain part) ↔
        ∀ x ∈ listing.paths [], ∀ part ∈ x.1, Plain part := by
    rw [Listing.paths_eq_map [top], List.forall_mem_map]
    simp [ht]
  simp only [root, Listing.paths, Entry.paths, List.nil_append, List.singleton_append,
    List.append_nil, List.forall_mem_cons, List.forall_mem_append, PlainNames]
  rw [hbelow _ (htop _ (by simp)), hbelow _ (htop _ (by simp))]
  have h1 := htop "landscape-webserver" (by simp)
  have h2 := htop "landscape_init.toml" (by simp)
  have h3 := htop "static.zip" (by simp)
  have h4 := htop "static" (by simp)
  have h5 := htop "geo_tmp" (by simp)
  simp [h1, h2, h3, h4, h5]

end Source

section Backup

variable (C : Crates) {env : BackupEnv} {req : BackupRequest} {src : Source}

theorem publish_eq_ok {architecture : Architecture} {archive : Bytes} {suffixes : List UInt32}
    {out : Published} (h : C.publish env req architecture archive suffixes = .ok out) :
    (∃ m, C.verifyLkb out.bytes = .ok m) ∧ out.bytes.drop metadataCapacity = archive := by
  induction suffixes with
  | nil => cases h
  | cons suffix rest ih =>
    simp only [Crates.publish, bind_eq_ok, ensure_eq_ok] at h
    obtain ⟨-, hfit, m, hm, h⟩ := h
    split at h
    · exact ih h
    · rw [pure_eq_ok] at h
      subst h
      exact ⟨⟨m, hm⟩, archive_container archive hfit⟩

theorem createBackup_eq_ok {out : Published} (h : C.createBackup env req src = .ok out) :
    ∃ static staticZip es, src.staticDir = some static ∧ C.packStaticZip static = .ok staticZip ∧
      src.tarEntries static staticZip = .ok es ∧ (∃ m, C.verifyLkb out.bytes = .ok m) ∧
      out.bytes.drop metadataCapacity = C.tarGz es := by
  simp only [Crates.createBackup, bind_eq_ok] at h
  obtain ⟨-, -, h⟩ := h
  cases hs : src.staticDir with
  | none =>
    rw [hs] at h
    cases h
  | some static =>
    simp only [hs, bind_eq_ok] at h
    obtain ⟨staticZip, hzip, es, hes, architecture, -, hpub⟩ := h
    obtain ⟨hm, harchive⟩ := publish_eq_ok C hpub
    exact ⟨static, staticZip, es, rfl, hzip, hes, hm, harchive⟩

variable {C} {static : Listing Bytes} {staticZip : Bytes} {es : List TarEntry} {bytes : Bytes}
  {m : Metadata}

theorem extract_refused (hsrc : src.WellFormed) (hs : src.staticDir = some static)
    (hes : src.tarEntries static staticZip = .ok es) (hm : C.verifyLkb bytes = .ok m)
    (hentries : C.untarGz (bytes.drop metadataCapacity) = some es) (hbad : ¬ src.PlainNames) :
    ∃ fault, C.extractLkb bytes = .error fault := by
  obtain ⟨xs, hxs, hperm⟩ := Source.tarEntries_represents hsrc hs hes
  rw [Source.plainNames_iff staticZip] at hbad
  push Not at hbad
  obtain ⟨x, hx, hpart⟩ := hbad
  obtain ⟨fault, hf⟩ := unpack_refused hxs ⟨x, hperm.mem_iff.mpr hx, hpart⟩ ⟨emptyDir, [], []⟩
  refine ⟨fault, ?_⟩
  simp only [Crates.extractLkb, hm, hentries, hf]
  rfl

theorem extract_restores (hsrc : src.WellFormed) (hs : src.staticDir = some static)
    (hes : src.tarEntries static staticZip = .ok es) (hm : C.verifyLkb bytes = .ok m)
    (hentries : C.untarGz (bytes.drop metadataCapacity) = some es) (hplain : src.PlainNames) :
    ∃ fs, C.extractLkb bytes = .ok (m, fs) ∧ src.RestoredIn fs := by
  obtain ⟨xs, hxs, hperm⟩ := Source.tarEntries_represents hsrc hs hes
  have hL := Source.root_consistent hsrc staticZip
  rw [Source.plainNames_iff staticZip] at hplain
  obtain ⟨st, hst, done, hdone, hmem⟩ := (progress_empty _).unpack hL hxs hperm.subset
    (by simpa using (hperm.map Prod.fst).nodup_iff.mpr hL.nodup)
    (fun x hx => hplain x (hperm.mem_iff.mp hx))
  have hall : ∀ x, x ∈ done ↔ x ∈ (src.root staticZip).paths [] := by
    intro x
    rw [hmem, hperm.mem_iff]
    simp
  have hfile (name : String) (c : Bytes)
      (hn : ([name], Node.file c) ∈ (src.root staticZip).paths []) : name ∈ st.files := by
    simpa [joined] using hdone.files ((hall _).mpr hn)
  have hdir (name : String)
      (hn : ([name], Node.dir) ∈ (src.root staticZip).paths []) : name ∈ st.dirs := by
    simpa [joined] using hdone.dirs ((hall _).mpr hn)
  refine ⟨st.fs, ?_, staticZip, ?_⟩
  · simp only [Crates.extractLkb, hm, hentries, bind_eq_ok, pure_eq_ok, Prod.mk.injEq]
    refine ⟨m, rfl, st, hst, (), ensure_eq_ok.mpr (hfile _ src.webserver ?_), (),
      ensure_eq_ok.mpr (hfile _ src.initConfig ?_), (), ensure_eq_ok.mpr (hfile _ staticZip ?_),
      (), ensure_eq_ok.mpr (hdir _ ?_), (), ensure_eq_ok.mpr (hdir _ ?_), rfl, rfl⟩
    all_goals simp [Source.root, Listing.paths, Entry.paths]
  · intro p n
    constructor
    · intro hfs
      by_cases hp : p = []
      · subst hp
        exact .inl ⟨rfl, Option.some.inj (hfs.symm.trans hdone.root)⟩
      · exact .inr (hdone.within hfs hp)
    · rintro (⟨rfl, rfl⟩ | hn)
      · exact hdone.root
      · exact hdone.there ((hall _).mpr hn)

/-- A backup is restored to exactly what it was made from if and only if no name in its trees
holds a colon or a backslash; with such a name it cannot be unpacked. The tar of the backup is
assumed to be read back with the entries it was made of. -/
theorem backup_restored_iff {out : Published} (hsrc : src.WellFormed)
    (htar : ∀ static staticZip es, src.staticDir = some static →
      C.packStaticZip static = .ok staticZip → src.tarEntries static staticZip = .ok es →
      C.untarGz (C.tarGz es) = some es)
    (h : C.createBackup env req src = .ok out) :
    (∃ m fs, C.extractLkb out.bytes = .ok (m, fs) ∧ src.RestoredIn fs) ↔ src.PlainNames := by
  obtain ⟨static, staticZip, es, hs, hzip, hes, ⟨m, hm⟩, harchive⟩ := createBackup_eq_ok C h
  have hentries : C.untarGz (out.bytes.drop metadataCapacity) = some es := by
    rw [harchive]
    exact htar static staticZip es hs hzip hes
  constructor
  · rintro ⟨m', fs, hex, -⟩
    by_contra hbad
    obtain ⟨fault, hf⟩ := extract_refused hsrc hs hes hm hentries hbad
    rw [hf] at hex
    cases hex
  · intro hplain
    obtain ⟨fs, hex, hfs⟩ := extract_restores hsrc hs hes hm hentries hplain
    exact ⟨m, fs, hex, hfs⟩

end Backup

/-! A backup whose geo cache holds one file. -/

section Samples

def sampleSource (geoName : String) : Source where
  webserver := [127, 69, 76, 70]
  initConfig := [35]
  staticDir := some (.cons (.utf8 "index.html") (.file [60, 62]) .nil)
  geoTmp := some (.cons (.utf8 geoName) (.file [1]) .nil)

def sampleEntries (geoName : String) : List TarEntry :=
  [⟨"landscape-webserver", .file, [127, 69, 76, 70]⟩, ⟨"landscape_init.toml", .file, [35]⟩,
    ⟨"static.zip", .file, [80, 75]⟩, ⟨"static", .dir, []⟩, ⟨"static/index.html", .file, [60, 62]⟩,
    ⟨"geo_tmp", .dir, []⟩, ⟨"geo_tmp" ++ "/" ++ geoName, .file, [1]⟩]

def sampleCrates (geoName : String) : Crates where
  toFormats := sampleFormats [31, 139]
  tarGz _ := [31, 139]
  untarGz _ := some (sampleEntries geoName)
  zip _ := [80, 75]
  unzip _ := some [⟨"static/index.html", false, false, false, [60, 62]⟩]
  lossy _ := "\uFFFD"

def sampleEnv : BackupEnv where
  now := ⟨2024, 1, 2, 3, 4, 5, 0⟩
  suffix _ := 43981
  hostname := "router".toList
  lkitVersion := "0.1.0".toList
  taken _ := false

def sampleRequest : BackupRequest := ⟨⟨1, 2, 3, [], []⟩, "x86_64", [], true⟩

def sampleBytes : Bytes :=
  container ((sampleFormats [31, 139]).toVec (sampleMetadata [31, 139])) [31, 139]

theorem sampleBytes_verified (geoName : String) :
    (sampleCrates geoName).verifyLkb sampleBytes = .ok (sampleMetadata [31, 139]) :=
  ((accepted_container_iff (sampleFormats [31, 139]) (sampleFormats_fromSlice [31, 139])
    sampleMetadata_valid sampleMetadata_fits (sampleMetadata_checksum [31, 139])).mpr
    Nat.one_lt_two).1

theorem sample_packed (geoName : String) :
    (sampleCrates geoName).packStaticZip (.cons (.utf8 "index.html") (.file [60, 62]) .nil) =
      .ok [80, 75] := by
  have hany : (sampleCrates geoName).packStaticZip (.cons (.utf8 "index.html") (.file [60, 62]) .nil) =
      (sampleCrates "").packStaticZip (.cons (.utf8 "index.html") (.file [60, 62]) .nil) := rfl
  rw [hany]
  decide +kernel

theorem sample_tarEntries (geoName : String) :
    (sampleSource geoName).tarEntries (.cons (.utf8 "index.html") (.file [60, 62]) .nil) [80, 75] =
      .ok (sampleEntries geoName) := rfl

theorem sample_created (geoName : String) :
    ∃ out, (sampleCrates geoName).createBackup sampleEnv sampleRequest (sampleSource geoName) =
      .ok out ∧ out.bytes = sampleBytes := by
  have hmeta : (sampleCrates geoName).metadataOf sampleEnv sampleRequest .x86_64
      (newBackupId sampleEnv.now 43981) [31, 139] = sampleMetadata [31, 139] := by
    have hid : newBackupId sampleEnv.now 43981 = "20240102-030405-0000abcd".toList := by
      decide +kernel
    have hversion : sampleRequest.landscapeVersion.display = "1.2.3".toList := by decide +kernel
    simp only [Crates.metadataOf, hid, hversion]
    rfl
  refine ⟨⟨newBackupId sampleEnv.now 43981, hex (sampleDigest sampleBytes), sampleBytes⟩, ?_, rfl⟩
  have hpublish (rest : List UInt32) :
      (sampleCrates geoName).publish sampleEnv sampleRequest .x86_64 [31, 139] (43981 :: rest) =
        .ok ⟨newBackupId sampleEnv.now 43981, hex (sampleDigest sampleBytes), sampleBytes⟩ := by
    simp only [Crates.publish, hmeta, bind_eq_ok, ensure_eq_ok]
    exact ⟨(), sampleMetadata_fits, _, sampleBytes_verified geoName, rfl⟩
  have hstatic : (sampleSource geoName).staticDir =
      some (.cons (.utf8 "index.html") (.file [60, 62]) .nil) := rfl
  simp only [Crates.createBackup, hstatic, bind_eq_ok]
  exact ⟨(), rfl, [80, 75], sample_packed geoName, sampleEntries geoName,
    sample_tarEntries geoName, .x86_64, rfl, hpublish _⟩

theorem sampleSource_wellFormed {geoName : String} (h : (OsName.utf8 geoName).Valid) :
    (sampleSource geoName).WellFormed := by
  have hindex : (OsName.utf8 "index.html").Valid := by
    simp only [OsName.Valid]
    decide
  refine ⟨⟨hindex, nofun, trivial, trivial⟩, ⟨h, nofun, trivial, trivial⟩⟩

/-- A geo cache with a colon in a file name is backed up, and the backup cannot be unpacked. -/
theorem colon_name_not_restored :
    (sampleSource "geo:ip.dat").WellFormed ∧
    ∃ out, (sampleCrates "geo:ip.dat").createBackup sampleEnv sampleRequest
        (sampleSource "geo:ip.dat") = .ok out ∧
      ∃ fault, (sampleCrates "geo:ip.dat").extractLkb out.bytes = .error fault := by
  have hvalid : (OsName.utf8 "geo:ip.dat").Valid := by
    simp only [OsName.Valid]
    decide
  have hw := sampleSource_wellFormed hvalid
  obtain ⟨out, hout, hbytes⟩ := sample_created "geo:ip.dat"
  refine ⟨hw, out, hout, ?_⟩
  rw [hbytes]
  refine extract_refused hw rfl (sample_tarEntries _) (sampleBytes_verified _) rfl ?_
  intro hplain
  have hname := hplain.2 (["geo:ip.dat"], .file [1]) (by simp [sampleSource, Listing.paths, Entry.paths])
    "geo:ip.dat" (by simp)
  exact absurd hname (by decide)

theorem plain_name_restored :
    ∃ out m fs, (sampleCrates "geoip.dat").createBackup sampleEnv sampleRequest
        (sampleSource "geoip.dat") = .ok out ∧
      (sampleCrates "geoip.dat").extractLkb out.bytes = .ok (m, fs) ∧
      (sampleSource "geoip.dat").RestoredIn fs := by
  have hvalid : (OsName.utf8 "geoip.dat").Valid := by
    simp only [OsName.Valid]
    decide
  obtain ⟨out, hout, -⟩ := sample_created "geoip.dat"
  have hplain : (sampleSource "geoip.dat").PlainNames := by
    simp only [Source.PlainNames, sampleSource, Option.getD_some, Listing.paths, Entry.paths]
    decide
  have htar : ∀ static staticZip es, (sampleSource "geoip.dat").staticDir = some static →
      (sampleCrates "geoip.dat").packStaticZip static = .ok staticZip →
      (sampleSource "geoip.dat").tarEntries static staticZip = .ok es →
      (sampleCrates "geoip.dat").untarGz ((sampleCrates "geoip.dat").tarGz es) = some es := by
    intro static staticZip es hs hzip hes
    obtain rfl := Option.some.inj hs
    rw [sample_packed] at hzip
    obtain rfl := Except.ok.inj hzip
    rw [sample_tarEntries] at hes
    obtain rfl := Except.ok.inj hes
    rfl
  obtain ⟨m, fs, hex, hfs⟩ :=
    (backup_restored_iff (sampleSource_wellFormed hvalid) htar hout).mpr hplain
  exact ⟨out, m, fs, hout, hex, hfs⟩

end Samples

end LandscapeKit.Lkb
