import LandscapeKit.LibFold
import LandscapeKit.PublishStatic

/-!
Which archives the publisher accepts and which ones the installer can unpack.
Both follow the same rules for every entry; the installer also needs that no
file lies above another entry.
-/

namespace LandscapeKit.Publish

open Lkb (zipPathParts joined joined_inj)
open Unpack (Item)

namespace StaticEntry

variable (e : StaticEntry)

def weight : ℕ := if e.isDir then 0 else e.content.length

def Fits (limit before : ℕ) : Prop :=
  e.isDir = true ∨
    (e.size ≤ limit - before ∧ before + e.content.length ≤ limit ∧ e.broken = false)

def item : Option (Item Bytes) :=
  match e.outputPath with
  | .ok (some ps) => some ⟨ps, if e.isDir then none else some e.content⟩
  | _ => none

end StaticEntry

def items (archive : Archive) : List (Item Bytes) := archive.filterMap (·.bind StaticEntry.item)

def Sound (limit : ℕ) : ℕ → Archive → Prop
  | _, [] => True
  | _, none :: _ => False
  | before, some e :: rest =>
    (∃ p, e.outputPath = .ok p) ∧ e.Fits limit before ∧ Sound limit (before + e.weight) rest

def isIndex (x : Item Bytes) : Bool := x.content.isSome && joined x.path = "index.html"

structure Publishable (limit : ℕ) (archive : Archive) : Prop where
  sound : Sound limit 0 archive
  distinct : ((items archive).map fun x => joined x.path).Nodup
  index : (items archive).any isIndex = true

def NoFileAbove (archive : Archive) : Prop :=
  ∀ x ∈ items archive, ∀ y ∈ items archive, x.content.isSome → x.path <+: y.path → x.path = y.path

theorem readChunks_eq_ok_iff {limit total : ℕ} (broken : Bool) (h : total ≤ limit)
    (cs : List Bytes) (r : ℕ × Bytes) :
    readChunks limit total broken cs = .ok r ↔
      (total + cs.flatten.length ≤ limit ∧ broken = false) ∧
        r = (total + cs.flatten.length, cs.flatten) := by
  induction cs generalizing total r with
  | nil =>
    cases broken
    · simp [readChunks, h, eq_comm]
    · simp [readChunks]
  | cons c cs ih =>
    simp only [readChunks, List.flatten_cons, List.length_append]
    by_cases hover : limit < total + c.length
    · -- the limit is passed by this chunk, so also by all of them
      rw [if_pos hover]
      constructor
      · nofun
      · rintro ⟨⟨hle, -⟩, -⟩
        omega
    · rw [if_neg hover]
      have hnext : total + c.length ≤ limit := by omega
      have hrest := ih hnext
      constructor
      · intro hmap
        cases hread : readChunks limit (total + c.length) broken cs with
        | error err => simp [hread, Except.map] at hmap
        | ok q =>
          obtain ⟨⟨hle, hb⟩, hq⟩ := (hrest q).mp hread
          rw [hread] at hmap
          refine ⟨⟨by omega, hb⟩, ?_⟩
          rw [← Except.ok.inj hmap, hq, Nat.add_assoc]
      · rintro ⟨⟨hle, hb⟩, rfl⟩
        have hread := (hrest (total + c.length + cs.flatten.length, cs.flatten)).mpr
          ⟨⟨by omega, hb⟩, rfl⟩
        rw [hread, Nat.add_assoc]
        rfl

theorem isDir_of_outputPath_none {e : StaticEntry} (h : e.outputPath = .ok none) :
    e.isDir = true := by
  unfold StaticEntry.outputPath at h
  split at h
  · cases h
  · split at h
    · cases h
    · split at h
      · cases h
      · split at h
        · cases h
        · split at h
          · next hdir => exact hdir.1
          · cases h
        · cases h

theorem collectParts_names {ps qs : List String} (h : Lkb.collectParts ps = .ok qs) :
    ∀ q ∈ qs, q ∈ ps ∧ q ≠ "" := by
  induction ps generalizing qs with
  | nil =>
    obtain rfl := Except.ok.inj h
    simp
  | cons p ps ih =>
    unfold Lkb.collectParts at h
    split at h
    · intro q hq
      obtain ⟨hmem, hne⟩ := ih h q hq
      exact ⟨List.mem_cons_of_mem _ hmem, hne⟩
    · next hempty =>
      split at h
      · cases h
      · split at h
        · cases h
        · cases hrest : Lkb.collectParts ps with
          | error err => simp [hrest, Except.map] at h
          | ok rs =>
            rw [hrest] at h
            obtain rfl := Except.ok.inj h
            intro q hq
            rcases List.mem_cons.mp hq with rfl | hq
            · exact ⟨List.mem_cons_self .., hempty⟩
            · obtain ⟨hmem, hne⟩ := ih hrest q hq
              exact ⟨List.mem_cons_of_mem _ hmem, hne⟩

theorem outputPath_names {e : StaticEntry} {ps : Path} (h : e.outputPath = .ok (some ps)) :
    ps ≠ [] ∧ ∀ p ∈ ps, '/' ∉ p.toList := by
  unfold StaticEntry.outputPath at h
  split at h
  · cases h
  · split at h
    · cases h
    · split at h
      · cases h
      · next relative _ =>
        split at h
        · cases h
        · split at h <;> cases h
        · next qs hne hparts =>
          obtain rfl := Option.some.inj (Except.ok.inj h)
          refine ⟨fun hnil => hne hnil, ?_⟩
          intro p hp
          unfold zipPathParts at hparts
          split at hparts
          · cases hparts
          · obtain ⟨hmem, -⟩ := collectParts_names hparts p hp
            obtain ⟨cs, hcs, rfl⟩ := List.mem_map.mp hmem
            rw [String.toList_ofList]
            exact Text.not_mem_of_mem_splitOn hcs

theorem item_names {e : StaticEntry} {x : Item Bytes} (h : e.item = some x) :
    x.path ≠ [] ∧ ∀ p ∈ x.path, '/' ∉ p.toList := by
  unfold StaticEntry.item at h
  split at h
  · next ps hps =>
    obtain rfl := Option.some.inj h
    exact outputPath_names hps
  · cases h

/-! One turn of the publisher's loop. -/

def Scan.next (st : Scan) : Option StaticEntry → Scan
  | none => st
  | some e =>
    match e.item with
    | none => st
    | some x =>
      ⟨joined x.path :: st.outputPaths, st.totalRead + e.weight, st.hasIndex || isIndex x⟩

def Scan.Accepts (limit : ℕ) (st : Scan) : Option StaticEntry → Prop
  | none => False
  | some e => (∃ p, e.outputPath = .ok p) ∧ e.Fits limit st.totalRead ∧
      ∀ x ∈ e.item, joined x.path ∉ st.outputPaths

theorem validateEntry_eq_ok_iff (reader : Reader) {limit : ℕ} (st : Scan)
    (entry : Option StaticEntry) (st' : Scan) (h : st.totalRead ≤ limit) :
    validateEntry reader limit st entry = .ok st' ↔
      st.Accepts limit entry ∧ st.next entry = st' := by
  cases entry with
  | none => simp [validateEntry, Scan.Accepts]
  | some e =>
    simp only [validateEntry, Scan.Accepts, Scan.next]
    cases hpath : e.outputPath with
    | error err => simp
    | ok place =>
      cases place with
      | none =>
        have hdir := isDir_of_outputPath_none hpath
        simp [StaticEntry.item, hpath, StaticEntry.Fits, hdir]
      | some ps =>
        by_cases hdup : joined ps ∈ st.outputPaths
        · simp [StaticEntry.item, hpath, hdup]
        · by_cases hdir : e.isDir = true
          · simp [StaticEntry.item, hpath, hdup, hdir, StaticEntry.Fits, StaticEntry.weight, isIndex]
          · by_cases hsize : limit - st.totalRead < e.size
            · simp [hdup, hdir, hsize, StaticEntry.Fits]
            · simp only [hdup, hdir, hsize, if_false]
              have hread := readChunks_eq_ok_iff e.broken h (reader.chunks (64*1024) e.content)
              rw [reader.whole] at hread
              cases hres : readChunks limit st.totalRead e.broken
                  (reader.chunks (64*1024) e.content) with
              | error err =>
                -- no reading that fails meets the conditions
                have hno : ¬ (st.totalRead + e.content.length ≤ limit ∧ e.broken = false) := by
                  intro hc
                  have hok := (hread _).mpr ⟨hc, rfl⟩
                  rw [hres] at hok
                  cases hok
                simp [StaticEntry.Fits, hdir, hno]
              | ok r =>
                obtain ⟨hc, rfl⟩ := (hread r).mp hres
                have hle : e.size ≤ limit - st.totalRead := by omega
                simp [StaticEntry.item, hpath, hdup, hdir, StaticEntry.Fits, StaticEntry.weight,
                  isIndex, hc, hle]

/-! One turn of the installer's loop. -/

def Extraction.next (st : Extraction) : Option StaticEntry → Extraction
  | none => st
  | some e =>
    match e.item with
    | none => st
    | some x =>
      ⟨Unpack.place st.fs x, joined x.path :: st.outputPaths, st.totalWritten + e.weight⟩

def Extraction.Accepts (limit : ℕ) (st : Extraction) : Option StaticEntry → Prop
  | none => False
  | some e => (∃ p, e.outputPath = .ok p) ∧ e.Fits limit st.totalWritten ∧
      ∀ x ∈ e.item, joined x.path ∉ st.outputPaths ∧ Unpack.Fits st.fs x

theorem createDirAll_eq_ok_iff (fs : Files Bytes) (p : Path) (fs' : Files Bytes) :
    createDirAll fs p = .ok fs' ↔ Unpack.Passable fs p ∧ fs.makeDirs p = fs' := by
  have hmem : (∀ q ∈ p.inits, fs q = none ∨ fs q = some .dir) ↔ Unpack.Passable fs p := by
    simp [Unpack.Passable, List.mem_inits]
  unfold createDirAll
  by_cases h : Unpack.Passable fs p
  · rw [if_pos (hmem.mpr h)]
    simp [h]
  · rw [if_neg (mt hmem.mp h)]
    simp [h]

theorem makeDirs_dropLast (fs : Files Bytes) {p : Path} (hp : p ≠ []) :
    fs.makeDirs p.dropLast p = fs p := by
  have hnot : ¬ p <+: p.dropLast := by
    rw [Unpack.prefix_dropLast_iff hp]
    exact fun h => h.2 rfl
  simp [Files.makeDirs, hnot]

theorem createWithParents_eq_ok_iff (fs : Files Bytes) {p : Path} (hp : p ≠ [])
    (fs' : Files Bytes) : createWithParents fs p = .ok fs' ↔
      (Unpack.Passable fs p.dropLast ∧ fs p ≠ some .dir) ∧
        (fs.makeDirs p.dropLast).put p (.file []) = fs' := by
  unfold createWithParents
  cases hdirs : createDirAll fs p.dropLast with
  | error err =>
    have hno : ¬ Unpack.Passable fs p.dropLast := by
      intro h
      have hok := (createDirAll_eq_ok_iff fs p.dropLast _).mpr ⟨h, rfl⟩
      rw [hdirs] at hok
      cases hok
    simp [bind, Except.bind, hno]
  | ok mid =>
    obtain ⟨hpass, rfl⟩ := (createDirAll_eq_ok_iff fs p.dropLast mid).mp hdirs
    by_cases hdir : fs p = some .dir
    · simp [bind, Except.bind, createFile, makeDirs_dropLast fs hp, hdir]
    · simp [bind, Except.bind, createFile, makeDirs_dropLast fs hp, hdir, hpass]

theorem extractEntry_eq_ok_iff (reader : Reader) {limit : ℕ} (st : Extraction)
    (entry : Option StaticEntry) (st' : Extraction) (h : st.totalWritten ≤ limit) :
    extractEntry reader limit st entry = .ok st' ↔
      st.Accepts limit entry ∧ st.next entry = st' := by
  cases entry with
  | none => simp [extractEntry, Extraction.Accepts]
  | some e =>
    simp only [extractEntry, Extraction.Accepts, Extraction.next]
    cases hpath : e.outputPath with
    | error err => simp
    | ok place =>
      cases place with
      | none =>
        have hdir := isDir_of_outputPath_none hpath
        simp [StaticEntry.item, hpath, StaticEntry.Fits, hdir]
      | some ps =>
        obtain ⟨hne, -⟩ := outputPath_names hpath
        by_cases hdup : joined ps ∈ st.outputPaths
        · simp [StaticEntry.item, hpath, hdup]
        · by_cases hdir : e.isDir = true
          · cases hdirs : createDirAll st.fs ps with
            | error err =>
              have hno : ¬ Unpack.Passable st.fs ps := by
                intro hpass
                have hok := (createDirAll_eq_ok_iff st.fs ps _).mpr ⟨hpass, rfl⟩
                rw [hdirs] at hok
                cases hok
              simp [bind, Except.bind, StaticEntry.item, hpath, hdup, hdir, hdirs,
                Unpack.Fits, hno]
            | ok fs =>
              obtain ⟨hpass, rfl⟩ := (createDirAll_eq_ok_iff st.fs ps fs).mp hdirs
              simp [bind, Except.bind, pure, Except.pure, StaticEntry.item, hpath, hdup, hdir,
                hdirs, StaticEntry.Fits, StaticEntry.weight, Unpack.Fits, Unpack.place, hpass]
          · by_cases hsize : limit - st.totalWritten < e.size
            · simp [hdup, hdir, hsize, StaticEntry.Fits]
            · have hle : e.size ≤ limit - st.totalWritten := by omega
              have hread := readChunks_eq_ok_iff e.broken h (reader.chunks (128*1024) e.content)
              rw [reader.whole] at hread
              simp only [hdup, hdir, hsize, if_false]
              cases hopen : createWithParents st.fs ps with
              | error err =>
                have hno : ¬ (Unpack.Passable st.fs ps.dropLast ∧ st.fs ps ≠ some .dir) := by
                  intro hfits
                  have hok := (createWithParents_eq_ok_iff st.fs hne _).mpr ⟨hfits, rfl⟩
                  rw [hopen] at hok
                  cases hok
                simp [bind, Except.bind, StaticEntry.item, hpath, hdup, hdir, Unpack.Fits, hno]
              | ok fs =>
                obtain ⟨hfits, rfl⟩ := (createWithParents_eq_ok_iff st.fs hne fs).mp hopen
                cases hres : readChunks limit st.totalWritten e.broken
                    (reader.chunks (128*1024) e.content) with
                | error err =>
                  have hno : ¬ (st.totalWritten + e.content.length ≤ limit ∧ e.broken = false) := by
                    intro hc
                    have hok := (hread _).mpr ⟨hc, rfl⟩
                    rw [hres] at hok
                    cases hok
                  simp [bind, Except.bind, StaticEntry.Fits, hdir, hno]
                | ok r =>
                  obtain ⟨hc, rfl⟩ := (hread r).mp hres
                  simp [bind, Except.bind, pure, Except.pure, StaticEntry.item, hpath, hdup, hdir,
                    StaticEntry.Fits, StaticEntry.weight, Unpack.Fits, Unpack.place, hc, hle, hfits,
                    Files.put]

/-! The loops. -/

theorem weight_of_item_none {e : StaticEntry} (hok : ∃ p, e.outputPath = .ok p)
    (h : e.item = none) : e.weight = 0 := by
  obtain ⟨place, hpath⟩ := hok
  cases place with
  | none => simp [StaticEntry.weight, isDir_of_outputPath_none hpath]
  | some ps => simp [StaticEntry.item, hpath] at h

theorem weight_le {e : StaticEntry} {limit before : ℕ} (hb : before ≤ limit)
    (h : e.Fits limit before) : before + e.weight ≤ limit := by
  unfold StaticEntry.weight
  split
  · omega
  · next hdir =>
    rcases h with h | h
    · exact absurd h hdir
    · exact h.2.1

theorem items_cons (e : StaticEntry) (rest : Archive) :
    items (some e :: rest) = e.item.toList ++ items rest := by
  cases h : e.item <;> simp [items, h]

theorem scan_passes_iff (limit : ℕ) (st : Scan) (archive : Archive) :
    Fold.Passes (Scan.Accepts limit) Scan.next st archive ↔
      Sound limit st.totalRead archive ∧ ((items archive).map fun x => joined x.path).Nodup ∧
        ∀ x ∈ items archive, joined x.path ∉ st.outputPaths := by
  induction archive generalizing st with
  | nil => simp [Fold.Passes, Sound, items]
  | cons entry rest ih =>
    cases entry with
    | none => simp [Fold.Passes, Scan.Accepts, Sound]
    | some e =>
      simp only [Fold.Passes, Scan.Accepts, Sound, ih, items_cons]
      cases hx : e.item with
      | none =>
        -- nothing to place: the state stays as it is
        by_cases hok : ∃ p, e.outputPath = .ok p
        · simp [Scan.next, hx, weight_of_item_none hok hx, hok, and_assoc]
        · simp [hok]
      | some x =>
        simp only [Scan.next, hx, Option.mem_some_iff, forall_eq', Option.toList_some,
          List.singleton_append, List.map_cons, List.nodup_cons, List.mem_map, List.mem_cons,
          forall_eq_or_imp, not_exists, not_and, not_or, forall_and]
        constructor
        · rintro ⟨⟨hok, hfits, hnew⟩, hsound, hnodup, hfresh, hold⟩
          exact ⟨⟨hok, hfits, hsound⟩, ⟨fun y hy he => hfresh y hy he, hnodup⟩, hnew, hold⟩
        · rintro ⟨⟨hok, hfits, hsound⟩, ⟨hfresh, hnodup⟩, hnew, hold⟩
          exact ⟨⟨hok, hfits, hnew⟩, hsound, hnodup, fun y hy he => hfresh y hy he, hold⟩

theorem hasIndex_foldl (st : Scan) (archive : Archive) :
    (archive.foldl Scan.next st).hasIndex = (st.hasIndex || (items archive).any isIndex) := by
  induction archive generalizing st with
  | nil => simp [items]
  | cons entry rest ih =>
    rw [List.foldl_cons, ih]
    cases entry with
    | none => simp [Scan.next, items]
    | some e =>
      rw [items_cons]
      cases hx : e.item with
      | none => simp [Scan.next, hx]
      | some x => simp [Scan.next, hx, Bool.or_assoc]

theorem extraction_passes_iff (limit : ℕ) (st : Extraction) (index : Bool) (archive : Archive) :
    Fold.Passes (Extraction.Accepts limit) Extraction.next st archive ↔
      Fold.Passes (Scan.Accepts limit) Scan.next ⟨st.outputPaths, st.totalWritten, index⟩ archive ∧
        Unpack.FitsAll st.fs (items archive) := by
  induction archive generalizing st index with
  | nil => simp [Fold.Passes, items, Unpack.FitsAll]
  | cons entry rest ih =>
    cases entry with
    | none => simp [Fold.Passes, Scan.Accepts, Extraction.Accepts]
    | some e =>
      simp only [Fold.Passes, Extraction.Accepts, Scan.Accepts, items_cons]
      cases hx : e.item with
      | none =>
        have hrest := ih st index
        simp [Extraction.next, Scan.next, hx, hrest, and_assoc]
      | some x =>
        have hrest := ih (st.next (some e)) (index || isIndex x)
        simp only [Extraction.next, hx] at hrest
        simp only [Extraction.next, Scan.next, hx, hrest, Option.mem_some_iff, forall_eq',
          Option.toList_some, List.singleton_append, Unpack.FitsAll]
        constructor
        · rintro ⟨⟨hok, hfits, hnew, hplace⟩, hscan, hall⟩
          exact ⟨⟨⟨hok, hfits, hnew⟩, hscan⟩, hplace, hall⟩
        · rintro ⟨⟨⟨hok, hfits, hnew⟩, hscan⟩, hplace, hall⟩
          exact ⟨⟨hok, hfits, hnew, hplace⟩, hscan, hall⟩

theorem fs_foldl (st : Extraction) (archive : Archive) :
    (archive.foldl Extraction.next st).fs = Unpack.placeAll st.fs (items archive) := by
  induction archive generalizing st with
  | nil => simp [items, Unpack.placeAll]
  | cons entry rest ih =>
    rw [List.foldl_cons, ih]
    cases entry with
    | none => simp [Extraction.next, items]
    | some e =>
      rw [items_cons]
      cases hx : e.item with
      | none => simp [Extraction.next, hx]
      | some x => simp [Extraction.next, hx, Unpack.placeAll]

theorem totalRead_next {limit : ℕ} {st : Scan} {entry : Option StaticEntry}
    (h : st.totalRead ≤ limit) (hacc : st.Accepts limit entry) :
    (st.next entry).totalRead ≤ limit := by
  cases entry with
  | none => exact h
  | some e =>
    cases hx : e.item with
    | none => simpa [Scan.next, hx] using h
    | some x => simpa [Scan.next, hx] using weight_le h hacc.2.1

theorem totalWritten_next {limit : ℕ} {st : Extraction} {entry : Option StaticEntry}
    (h : st.totalWritten ≤ limit) (hacc : st.Accepts limit entry) :
    (st.next entry).totalWritten ≤ limit := by
  cases entry with
  | none => exact h
  | some e =>
    cases hx : e.item with
    | none => simpa [Extraction.next, hx] using h
    | some x => simpa [Extraction.next, hx] using weight_le h hacc.2.1

/-! Both sides together. -/

theorem validateStaticArchive_ok_iff (version : String) (reader : Reader) (length : ℕ)
    (archive : Archive) :
    validateStaticArchive version reader length archive = .ok () ↔
      Publishable (staticLimit length) archive := by
  have hfold := Fold.foldlM_eq_ok_iff (I := fun st : Scan => st.totalRead ≤ staticLimit length)
    (fun st entry st' h => validateEntry_eq_ok_iff reader st entry st' h)
    (fun st entry h hacc => totalRead_next h hacc) (s := ⟨[], 0, false⟩) (Nat.zero_le _) archive
  have hpass := scan_passes_iff (staticLimit length) ⟨[], 0, false⟩ archive
  have hindex := hasIndex_foldl ⟨[], 0, false⟩ archive
  unfold validateStaticArchive
  constructor
  · intro h
    split at h
    · cases h
    · next st hst =>
      obtain ⟨hpasses, rfl⟩ := (hfold st).mp hst
      obtain ⟨hsound, hnodup, -⟩ := hpass.mp hpasses
      split at h
      · next hhas => exact ⟨hsound, hnodup, by simpa [hindex] using hhas⟩
      · cases h
  · rintro ⟨hsound, hdistinct, hany⟩
    have hok := (hfold _).mpr ⟨hpass.mpr ⟨hsound, hdistinct, by simp⟩, rfl⟩
    rw [hok]
    simp [hindex, hany]

theorem items_names {archive : Archive} {x : Item Bytes} (h : x ∈ items archive) :
    x.path ≠ [] ∧ ∀ p ∈ x.path, '/' ∉ p.toList := by
  obtain ⟨entry, -, hentry⟩ := List.mem_filterMap.mp h
  obtain ⟨e, -, he⟩ := Option.bind_eq_some_iff.mp hentry
  exact item_names he

theorem nodup_paths {archive : Archive} (h : ((items archive).map fun x => joined x.path).Nodup) :
    ((items archive).map Item.path).Nodup := by
  have hmap : ((items archive).map fun x => joined x.path) =
      ((items archive).map Item.path).map joined := by
    rw [List.map_map]
    rfl
  rw [hmap] at h
  exact List.Nodup.of_map _ h

theorem isIndex_iff {archive : Archive} {x : Item Bytes} (h : x ∈ items archive) :
    isIndex x = true ↔ x.content.isSome ∧ x.path = ["index.html"] := by
  obtain ⟨hne, hnames⟩ := items_names h
  have hsingle : joined ["index.html"] = "index.html" := by decide
  have hpath : joined x.path = "index.html" ↔ x.path = ["index.html"] := by
    constructor
    · intro he
      apply joined_inj hnames _ hne (by simp) (he.trans hsingle.symm)
      intro q hq
      rw [List.mem_singleton.mp hq]
      decide
    · intro he
      rw [he, hsingle]
  simp [isIndex, hpath]

theorem extractStaticArchive_eq_ok_iff {reader : Reader} {length : ℕ} {archive : Archive}
    {fs : Files Bytes} :
    extractStaticArchive reader length archive = .ok fs ↔
      Sound (staticLimit length) 0 archive ∧
        ((items archive).map fun x => joined x.path).Nodup ∧
          Unpack.FitsAll Unpack.empty (items archive) ∧
            fs = Unpack.placeAll Unpack.empty (items archive) ∧
              fs.isFile ["index.html"] = true := by
  have hfold := Fold.foldlM_eq_ok_iff
    (I := fun st : Extraction => st.totalWritten ≤ staticLimit length)
    (fun st entry st' h => extractEntry_eq_ok_iff reader st entry st' h)
    (fun st entry h hacc => totalWritten_next h hacc) (s := ⟨Unpack.empty, [], 0⟩)
    (Nat.zero_le _) archive
  have hpass := extraction_passes_iff (staticLimit length) ⟨Unpack.empty, [], 0⟩ false archive
  rw [scan_passes_iff] at hpass
  have hfs := fs_foldl ⟨Unpack.empty, [], 0⟩ archive
  unfold extractStaticArchive
  constructor
  · intro h
    split at h
    · cases h
    · next st hst =>
      obtain ⟨hpasses, rfl⟩ := (hfold st).mp hst
      obtain ⟨⟨hsound, hnodup, -⟩, hfits⟩ := hpass.mp hpasses
      split at h
      · next hfile =>
        cases h
        exact ⟨hsound, hnodup, hfits, hfs, hfile⟩
      · cases h
  · rintro ⟨hsound, hnodup, hfits, rfl, hfile⟩
    have hok := (hfold _).mpr ⟨hpass.mpr ⟨⟨hsound, hnodup, by simp⟩, hfits⟩, rfl⟩
    rw [← hfs] at hfile
    rw [hok, ← hfs]
    exact if_pos hfile

theorem extractStaticArchive_placed {reader : Reader} {length : ℕ} {archive : Archive}
    {fs : Files Bytes} (h : extractStaticArchive reader length archive = .ok fs) :
    Sound (staticLimit length) 0 archive ∧ ((items archive).map Item.path).Nodup ∧
      Unpack.FitsAll Unpack.empty (items archive) ∧
        fs = Unpack.placeAll Unpack.empty (items archive) := by
  obtain ⟨hsound, hnodup, hfits, hfs, -⟩ := extractStaticArchive_eq_ok_iff.mp h
  exact ⟨hsound, nodup_paths hnodup, hfits, hfs⟩

theorem extractStaticArchive_ok_iff (reader : Reader) (length : ℕ) (archive : Archive) :
    (∃ fs, extractStaticArchive reader length archive = .ok fs) ↔
      Publishable (staticLimit length) archive ∧ NoFileAbove archive := by
  have hne : ∀ x ∈ items archive, x.path ≠ [] := fun x hx => (items_names hx).1
  -- once everything is placed, the index is a file exactly when the archive has one
  have hindex (hfits : Unpack.FitsAll Unpack.empty (items archive)) :
      (Unpack.placeAll Unpack.empty (items archive)).isFile ["index.html"] = true ↔
        (items archive).any isIndex = true := by
    rw [(Unpack.Progress.init.run hne hfits).file, List.any_eq_true]
    constructor
    · rintro ⟨x, hx, hfile, hpath⟩
      have hmem : x ∈ items archive := by simpa using hx
      exact ⟨x, hmem, (isIndex_iff hmem).mpr ⟨hfile, hpath⟩⟩
    · rintro ⟨x, hx, hi⟩
      exact ⟨x, by simpa using hx, (isIndex_iff hx).mp hi⟩
  have habove (hnodup : ((items archive).map fun x => joined x.path).Nodup) :
      Unpack.FitsAll Unpack.empty (items archive) ↔ NoFileAbove archive := by
    rw [Unpack.fitsAll_empty_iff hne (nodup_paths hnodup)]
    simp [NoFileAbove, Unpack.Above]
  constructor
  · rintro ⟨fs, h⟩
    obtain ⟨hsound, hnodup, hfits, rfl, hfile⟩ := extractStaticArchive_eq_ok_iff.mp h
    exact ⟨⟨hsound, hnodup, (hindex hfits).mp hfile⟩, (habove hnodup).mp hfits⟩
  · rintro ⟨⟨hsound, hnodup, hany⟩, hclear⟩
    have hfits := (habove hnodup).mpr hclear
    exact ⟨_, extractStaticArchive_eq_ok_iff.mpr
      ⟨hsound, hnodup, hfits, rfl, (hindex hfits).mpr hany⟩⟩

/-- The two sides agree on an archive exactly when it is not publishable or no file of it lies
above another entry. -/
theorem accepted_iff_installable_iff (version : String) (reader : Reader) (length : ℕ)
    (archive : Archive) :
    (validateStaticArchive version reader length archive = .ok () ↔
      ∃ fs, extractStaticArchive reader length archive = .ok fs) ↔
    (Publishable (staticLimit length) archive → NoFileAbove archive) := by
  rw [validateStaticArchive_ok_iff, extractStaticArchive_ok_iff]
  constructor
  · intro h hp
    exact (h.mp hp).2
  · intro h
    exact ⟨fun hp => ⟨hp, h hp⟩, fun hp => hp.1⟩

def fileEntry (name : String) (content : Bytes) : StaticEntry :=
  ⟨name, none, content.length, content, false⟩

def wholeReader : Reader := ⟨fun _ content => [content], by simp⟩

/-- `static/a` is a file and `static/a/b` lies below it: the publisher accepts the archive and
the installer fails on it. -/
theorem file_above_entry_accepted :
    let archive : Archive :=
      [some (fileEntry "static/index.html" [1]), some (fileEntry "static/a" [2]),
        some (fileEntry "static/a/b" [3])]
    validateStaticArchive "1.0.0" wholeReader 300 archive = .ok () ∧
      ¬ ∃ fs, extractStaticArchive wholeReader 300 archive = .ok fs := by
  constructor
  · decide +kernel
  · have hfail : ¬ (extractStaticArchive wholeReader 300
        [some (fileEntry "static/index.html" [1]), some (fileEntry "static/a" [2]),
          some (fileEntry "static/a/b" [3])]).isOk = true := by decide +kernel
    rintro ⟨fs, hfs⟩
    apply hfail
    simp only [hfs, Except.isOk, Except.toBool]

end LandscapeKit.Publish
