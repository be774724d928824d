import LandscapeKit.LibEffects
import LandscapeKit.LibPaths
import LandscapeKit.PublishExtract

/-!
What unpacking `static.zip` does to the disk, entry by entry, also where it fails in the middle.
Nothing but the target directory and what is below it is touched, no path twice, and never more is
written than the limit allows.
-/

namespace LandscapeKit.Publish.Disk

open Lkb (joined zipPathParts)
open Unpack (Item)
open Effect

section Calls

/-- From the path upwards to the first directory that is there. -/
def createDirAllFrom (fs : Files Bytes) : List String → Option (List (Effect UInt8))
  | [] => if fs [] = some .dir then some [] else none
  | name :: up =>
    match fs (name :: up).reverse with
    | some .dir => some []
    | some _ => none
    | none => (createDirAllFrom fs up).map fun effects => effects ++ [.mkdir (name :: up).reverse]

def createDirAll (fs : Files Bytes) (p : Path) : Option (List (Effect UInt8)) :=
  createDirAllFrom fs p.reverse

/-- Every chunk counts before it is written. -/
def writeChunks (limit total : ℕ) (broken : Bool) (p : Path) :
    List Bytes → List (Effect UInt8) × Except EntryError ℕ
  | [] => ([], if broken then .error .readFailed else .ok total)
  | chunk :: rest =>
    if limit < total + chunk.length then ([], .error .exceedsTotal)
    else
      let (effects, outcome) := writeChunks limit (total + chunk.length) broken p rest
      (.write p chunk :: effects, outcome)

end Calls

section Loop

structure State where
  fs : Files Bytes
  outputPaths : List String
  totalWritten : ℕ

variable (reader : Reader) (limit : ℕ) (target : Path)

def createEntry (st : State) (e : StaticEntry) (ps : List String) :
    List (Effect UInt8) × Except EntryError State :=
  let path := locate target ps
  let outputPaths := joined ps :: st.outputPaths
  if e.isDir then
    match createDirAll st.fs path with
    | none => ([], .error .createFailed)
    | some effects => (effects, .ok ⟨applyAll st.fs effects, outputPaths, st.totalWritten⟩)
  else if limit - st.totalWritten < e.size then ([], .error (.exceeds e.name))
  else
    match createDirAll st.fs path.dropLast with
    | none => ([], .error .createFailed)
    | some dirs =>
      if applyAll st.fs dirs path = some .dir then (dirs, .error .createFailed)
      else
        let (writes, outcome) := writeChunks limit st.totalWritten e.broken path
          (reader.chunks (128*1024) e.content)
        let effects := dirs ++ .create path :: writes
        (effects, outcome.map fun total => ⟨applyAll st.fs effects, outputPaths, total⟩)

/-- What one entry does, and the state it leaves when it does not fail. -/
def turn (st : State) : Option StaticEntry → List (Effect UInt8) × Except EntryError State
  | none => ([], .error .unreadable)
  | some e =>
    match e.outputPath with
    | .error err => ([], .error err)
    | .ok none => ([], .ok st)
    | .ok (some ps) =>
      if joined ps ∈ st.outputPaths then ([], .error (.duplicate e.name (joined ps)))
      else createEntry reader limit target st e ps

/-- The turns up to the first that fails. -/
def turns (st : State) : Archive → List (List (Effect UInt8)) × Except EntryError State
  | [] => ([], .ok st)
  | entry :: rest =>
    match turn reader limit target st entry with
    | (effects, .error err) => ([effects], .error err)
    | (effects, .ok st) =>
      let (later, outcome) := turns st rest
      (effects :: later, outcome)

/-- What was done, turn by turn, and what came of it. -/
structure Run where
  done : List (List (Effect UInt8))
  outcome : Except RepositoryError (Files Bytes)

/-- After the last entry the index has to be there. -/
def finish : Except EntryError State → Except RepositoryError (Files Bytes)
  | .error err => .error (extractError err)
  | .ok st =>
    if st.fs.isFile (follow target "index.html") then .ok st.fs
    else .error (extractError .missingIndex)

/-- The target directory is created first, and must not be there. -/
def extractStaticArchive (declaredSize : ℕ) (archive : Archive) (fs : Files Bytes) : Run :=
  if fs target ≠ none ∨ fs target.dropLast ≠ some .dir then
    ⟨[], .error (.extract "target directory must not exist and must be creatable exclusively")⟩
  else
    let (later, outcome) := turns reader (staticLimit declaredSize) target
      ⟨apply fs (.mkdir target), [], 0⟩ archive
    ⟨[.mkdir target] :: later, finish target outcome⟩

end Loop

section Names

theorem locate_names {ps : List String} (hslash : ∀ p ∈ ps, '/' ∉ p.toList)
    (h : ∀ p ∈ ps, IsName p) (dir : Path) : locate dir ps = dir ++ ps := by
  induction ps generalizing dir with
  | nil => rw [locate, List.foldl_nil, List.append_nil]
  | cons p ps ih =>
    obtain ⟨hp, hps⟩ := List.forall_mem_cons.mp h
    obtain ⟨hfree, hslash⟩ := List.forall_mem_cons.mp hslash
    have hrest := ih hslash hps (dir ++ [p])
    rw [locate] at hrest ⊢
    rw [List.foldl_cons, follow_name hfree hp, hrest, List.append_assoc]
    rfl

theorem collectParts_ok {ps qs : List String} (h : Lkb.collectParts ps = .ok qs) :
    qs = ps.filter (· ≠ "") ∧ ∀ q ∈ qs, q ≠ "." ∧ q ≠ ".." := by
  induction ps generalizing qs with
  | nil =>
    obtain rfl := Except.ok.inj h
    exact ⟨rfl, nofun⟩
  | cons p ps ih =>
    rw [Lkb.collectParts] at h
    split at h
    · next hempty =>
      rw [List.filter_cons_of_neg (by simpa using hempty)]
      exact ih h
    · next hempty =>
      split at h
      · cases h
      · next hdots =>
        split at h
        · cases h
        · cases hrest : Lkb.collectParts ps with
          | error err =>
            rw [hrest] at h
            cases h
          | ok rs =>
            rw [hrest] at h
            obtain rfl := Except.ok.inj h
            obtain ⟨hfilter, hnames⟩ := ih hrest
            rw [List.filter_cons_of_pos (by simpa using hempty), ← hfilter]
            exact ⟨rfl, List.forall_mem_cons.mpr ⟨not_or.mp hdots, hnames⟩⟩

/-- The path of an entry below `static/`, without its empty pieces. -/
def Placed (e : StaticEntry) (ps : List String) : Prop :=
  ∃ relative, Text.stripLead "static/".toList e.name.toList = some relative ∧
    ps = (parts (String.ofList relative)).filter (· ≠ "")

theorem outputPath_placed {e : StaticEntry} {ps : Path} (h : e.outputPath = .ok (some ps)) :
    Placed e ps ∧ ∀ p ∈ ps, IsName p := by
  rw [StaticEntry.outputPath] at h
  split at h
  · cases h
  · split at h
    · cases h
    · split at h
      · cases h
      · next relative hrelative =>
        split at h
        · cases h
        · split at h <;> cases h
        · next qs _ hparts =>
          obtain rfl := Option.some.inj (Except.ok.inj h)
          rw [zipPathParts] at hparts
          split at hparts
          · cases hparts
          · obtain ⟨hfilter, hdots⟩ := collectParts_ok hparts
            refine ⟨⟨relative, hrelative, hfilter⟩, fun p hp => ?_⟩
            have hempty : p ≠ "" := by
              rw [hfilter] at hp
              simpa using (List.mem_filter.mp hp).2
            exact ⟨hempty, hdots p hp⟩

theorem locate_outputPath {e : StaticEntry} {ps : Path} (h : e.outputPath = .ok (some ps))
    (target : Path) : locate target ps = target ++ ps :=
  locate_names (outputPath_names h).2 (outputPath_placed h).2 target

end Names

section Directories

variable {fs : Files Bytes} {target : Path} {done : List (Item Bytes)} {ps : List String}

theorem createDirAll_dir {p : Path} (h : fs p = some .dir) : createDirAll fs p = some [] := by
  rw [createDirAll]
  cases hup : p.reverse with
  | nil =>
    rw [List.reverse_eq_nil_iff.mp hup] at h
    rw [createDirAllFrom, if_pos h]
  | cons name up =>
    have hp : (name :: up).reverse = p := by rw [← hup, List.reverse_reverse]
    rw [createDirAllFrom, hp, h]

theorem createDirAll_snoc (p : Path) (name : String) : createDirAll fs (p ++ [name]) =
    match fs (p ++ [name]) with
    | some .dir => some []
    | some _ => none
    | none => (createDirAll fs p).map fun effects => effects ++ [.mkdir (p ++ [name])] := by
  rw [createDirAll, List.reverse_append, List.reverse_singleton, List.singleton_append,
    createDirAllFrom, List.reverse_cons, List.reverse_reverse]
  rfl

theorem makeDirs_snoc {κ : Type} (fs : Files κ) (p : Path) (name : String)
    (h : fs (p ++ [name]) = none) :
    fs.makeDirs (p ++ [name]) = (fs.makeDirs p).put (p ++ [name]) .dir := by
  funext r
  by_cases hr : r = p ++ [name]
  · subst hr
    rw [Files.makeDirs, if_pos ⟨List.prefix_refl _, h⟩, Files.put, Function.update_self]
  · rw [Files.put, Function.update_of_ne hr]
    simp only [Files.makeDirs, List.prefix_concat_iff, hr, false_or]

theorem makeDirs_dirs {κ : Type} {fs : Files κ} {p : Path} (h : ∀ q, q <+: p → fs q = some .dir) :
    fs.makeDirs p = fs := by
  funext r
  rw [Files.makeDirs, if_neg]
  rintro ⟨hr, hnone⟩
  rw [h r hr] at hnone
  cases hnone

theorem subtree_put_below (p : Path) (n : Node Bytes) :
    (fs.put (target ++ p) n).subtree target = (fs.subtree target).put p n := by
  funext r
  rw [Files.subtree, Files.put, Files.put]
  by_cases hr : r = p
  · rw [hr, Function.update_self, Function.update_self]
  · rw [Function.update_of_ne hr, Function.update_of_ne fun h => hr (List.append_cancel_left h)]
    rfl

theorem createDirAll_some (h : Unpack.Progress done (fs.subtree target))
    {effects : List (Effect UInt8)} (hdirs : createDirAll fs (target ++ ps) = some effects) :
    Unpack.Passable (fs.subtree target) ps ∧
      (∀ e ∈ effects, ∃ qs, qs ≠ [] ∧ qs <+: ps ∧ e = .mkdir (target ++ qs) ∧
        fs (target ++ qs) = none) ∧
      (applyAll fs effects).subtree target = (fs.subtree target).makeDirs ps := by
  induction ps using List.reverseRecOn generalizing effects with
  | nil =>
    have hroot : fs.subtree target [] = some .dir := (h.dir []).mpr (.inl rfl)
    have hall : ∀ q : Path, q <+: [] → fs.subtree target q = some .dir := by
      intro q hq
      rw [List.prefix_nil.mp hq]
      exact hroot
    rw [List.append_nil, createDirAll_dir (by rwa [Files.subtree_nil_apply] at hroot)] at hdirs
    cases hdirs
    refine ⟨fun q hq => .inr (hall q hq), nofun, ?_⟩
    rw [applyAll_nil, makeDirs_dirs hall]
  | append_singleton ps name ih =>
    rw [← List.append_assoc, createDirAll_snoc, List.append_assoc] at hdirs
    have hthere : fs.subtree target (ps ++ [name]) = fs (target ++ (ps ++ [name])) := rfl
    cases hnode : fs (target ++ (ps ++ [name])) with
    | some node =>
      rw [hnode] at hdirs hthere
      cases node with
      | dir =>
        cases hdirs
        have hall : ∀ q, q <+: ps ++ [name] → fs.subtree target q = some .dir := by
          intro q hq
          by_cases hself : q = ps ++ [name]
          · rw [hself, hthere]
          · exact h.above (by rw [hthere]; nofun) hq hself
        refine ⟨fun q hq => .inr (hall q hq), nofun, ?_⟩
        rw [applyAll_nil, makeDirs_dirs hall]
      | file c => cases hdirs
      | link t => cases hdirs
    | none =>
      rw [hnode] at hdirs hthere
      obtain ⟨dirs, hrest, rfl⟩ := Option.map_eq_some_iff.mp hdirs
      obtain ⟨hpass, hmissing, hmade⟩ := ih hrest
      refine ⟨?_, ?_, ?_⟩
      · intro q hq
        rcases List.prefix_concat_iff.mp hq with rfl | hq
        · exact .inl hthere
        · exact hpass q hq
      · intro e he
        rcases List.mem_append.mp he with he | he
        · obtain ⟨qs, hne, hpre, hmkdir, hnone⟩ := hmissing e he
          exact ⟨qs, hne, hpre.trans (List.prefix_append ..), hmkdir, hnone⟩
        · obtain rfl := List.mem_singleton.mp he
          exact ⟨ps ++ [name], List.append_ne_nil_of_right_ne_nil _ nofun, List.prefix_refl _,
            rfl, hnode⟩
      · rw [applyAll_append, applyAll_cons, applyAll_nil, apply, subtree_put_below, hmade,
          makeDirs_snoc _ _ _ hthere]

end Directories

section Chunks

variable {limit total : ℕ} {b : Bool} {p : Path}

theorem writeChunks_spec (hle : total ≤ limit) (chunks : List Bytes) :
    (∀ e ∈ (writeChunks limit total b p chunks).1, e.path = p) ∧
      total + sizes (writeChunks limit total b p chunks).1 ≤ limit ∧
      ∀ t, (writeChunks limit total b p chunks).2 = .ok t →
        t = total + sizes (writeChunks limit total b p chunks).1 ∧
          ∀ (fs : Files Bytes) (content : Bytes), fs p = some (.file content) →
            applyAll fs (writeChunks limit total b p chunks).1 =
              fs.put p (.file (content ++ chunks.flatten)) := by
  induction chunks generalizing total with
  | nil =>
    refine ⟨nofun, hle, fun t ht => ?_⟩
    rw [writeChunks] at ht ⊢
    cases b with
    | true => cases ht
    | false =>
      cases ht
      refine ⟨rfl, fun fs content hfile => ?_⟩
      have hsame : fs.put p (.file content) = fs := Function.update_eq_self_iff.mpr hfile.symm
      rw [applyAll_nil, List.flatten_nil, List.append_nil, hsame]
  | cons chunk rest ih =>
    rw [writeChunks]
    split
    · exact ⟨nofun, hle, nofun⟩
    · rename_i hroom
      have hnext : total + chunk.length ≤ limit := by omega
      obtain ⟨hpath, hsize, hok⟩ := ih hnext
      refine ⟨List.forall_mem_cons.mpr ⟨rfl, hpath⟩, ?_, fun t ht => ?_⟩
      · rw [sizes_cons, Effect.size]
        omega
      · obtain ⟨rfl, hwritten⟩ := hok t ht
        refine ⟨?_, fun fs content hfile => ?_⟩
        · rw [sizes_cons, Effect.size, Nat.add_assoc]
        · have hself : (fs.put p (.file (content ++ chunk))) p = some (.file (content ++ chunk)) :=
            Function.update_self ..
          rw [applyAll_cons, apply_write hfile, hwritten _ _ hself, Files.put, Files.put,
            Function.update_idem, List.flatten_cons, List.append_assoc]
          rfl

end Chunks

section Turn

variable {target : Path} {limit : ℕ} {done : List (Item Bytes)} {st : State}

/-- Below the target is what the entries `done` have put there, and all their paths are noted. -/
structure Unpacked (target : Path) (done : List (Item Bytes)) (st : State) : Prop where
  progress : Unpack.Progress done (st.fs.subtree target)
  contents : ∀ p c, st.fs (target ++ p) = some (.file c) ↔
    ∃ x ∈ done, x.path = p ∧ x.content = some c
  names : ∀ x ∈ done, (x.path ≠ [] ∧ ∀ p ∈ x.path, '/' ∉ p.toList) ∧
    joined x.path ∈ st.outputPaths

/-- A turn touches only what is below the target and was not there before it. -/
structure Careful (target : Path) (limit : ℕ) (st : State) (effects : List (Effect UInt8)) :
    Prop where
  fresh : ∀ f ∈ effects, Below target f.path ∧ st.fs f.path = none
  size : st.totalWritten + sizes effects ≤ limit

/-- The state after a turn that did not fail. -/
structure Leaves (target : Path) (done : List (Item Bytes)) (st : State)
    (effects : List (Effect UInt8)) (st' : State) : Prop where
  fs : st'.fs = applyAll st.fs effects
  total : st'.totalWritten = st.totalWritten + sizes effects
  there : ∀ f ∈ effects, st'.fs f.path ≠ none
  unpacked : Unpacked target done st'

theorem Careful.nothing (h : st.totalWritten ≤ limit) : Careful target limit st [] := ⟨nofun, h⟩

theorem Unpacked.not_file (h : Unpacked target done st) {ps : Path} (hne : ps ≠ [])
    (hslash : ∀ p ∈ ps, '/' ∉ p.toList) (hnew : joined ps ∉ st.outputPaths) (c : Bytes) :
    st.fs (target ++ ps) ≠ some (.file c) := by
  intro hfile
  obtain ⟨x, hx, rfl, -⟩ := (h.contents ps c).mp hfile
  exact hnew (h.names x hx).2

theorem Unpacked.place (h : Unpacked target done st) {x : Item Bytes} {st' : State}
    (hne : x.path ≠ []) (hslash : ∀ p ∈ x.path, '/' ∉ p.toList)
    (hnew : joined x.path ∉ st.outputPaths) (hfits : Unpack.Fits (st.fs.subtree target) x)
    (hfs : st'.fs.subtree target = Unpack.place (st.fs.subtree target) x)
    (hpaths : st'.outputPaths = joined x.path :: st.outputPaths) :
    Unpacked target (x :: done) st' := by
  constructor
  · rw [hfs]
    exact h.progress.step hne hfits
  · intro p c
    have hsub : st'.fs (target ++ p) = Unpack.place (st.fs.subtree target) x p := congrFun hfs p
    have hold := h.contents p c
    rw [hsub, Unpack.place_file_iff (h.not_file hne hslash hnew)]
    simp only [List.exists_mem_cons_iff]
    rw [← hold, or_comm]
    rfl
  · intro y hy
    rw [hpaths]
    rcases List.mem_cons.mp hy with rfl | hy
    · exact ⟨⟨hne, hslash⟩, List.mem_cons_self ..⟩
    · exact ⟨(h.names y hy).1, List.mem_cons_of_mem _ (h.names y hy).2⟩

theorem below_of_ne_nil {qs : Path} (hne : qs ≠ []) : Below target (target ++ qs) := by
  obtain ⟨q, qs, rfl⟩ := List.exists_cons_of_ne_nil hne
  exact ⟨q, qs, rfl⟩

theorem apply_mkdir_self (fs : Files Bytes) (p : Path) : apply fs (.mkdir p) p ≠ none := by
  rw [apply, Files.put, Function.update_self]
  exact Option.some_ne_none _

theorem apply_create_self (fs : Files Bytes) (p : Path) : apply fs (.create p) p ≠ none := by
  rw [apply, Files.put, Function.update_self]
  exact Option.some_ne_none _

theorem createEntry_spec (reader : Reader) (h : Unpacked target done st)
    (hle : st.totalWritten ≤ limit) {e : StaticEntry} {ps : Path}
    (hpath : e.outputPath = .ok (some ps)) (hnew : joined ps ∉ st.outputPaths) :
    Careful target limit st (createEntry reader limit target st e ps).1 ∧
      ∀ st', (createEntry reader limit target st e ps).2 = .ok st' →
        Leaves target (⟨ps, if e.isDir then none else some e.content⟩ :: done) st
          (createEntry reader limit target st e ps).1 st' := by
  obtain ⟨hne, hslash⟩ := outputPath_names hpath
  have hmkdirs {qs : Path} {effects : List (Effect UInt8)}
      (hdirs : createDirAll st.fs (target ++ qs) = some effects) :
      (∀ f ∈ effects, Below target f.path ∧ st.fs f.path = none) ∧ sizes effects = 0 := by
    have hmade := (createDirAll_some h.progress hdirs).2.1
    constructor
    · intro f hf
      obtain ⟨rs, hrs, -, rfl, hnone⟩ := hmade f hf
      exact ⟨below_of_ne_nil hrs, hnone⟩
    · apply sizes_eq_zero
      intro f hf
      obtain ⟨rs, -, -, rfl, -⟩ := hmade f hf
      rfl
  rw [createEntry, locate_outputPath hpath]
  dsimp only
  split
  · next hdir =>
    split
    · exact ⟨.nothing hle, fun _ h => by cases h⟩
    · next effects hdirs =>
      obtain ⟨hpass, hmade', hmade⟩ := createDirAll_some h.progress hdirs
      obtain ⟨hfresh, hsize⟩ := hmkdirs hdirs
      refine ⟨⟨hfresh, by rw [hsize]; exact hle⟩, fun st' hst => ?_⟩
      cases hst
      refine ⟨rfl, by rw [hsize]; rfl, fun f hf => ?_, ?_⟩
      · obtain ⟨rs, -, -, rfl, -⟩ := hmade' f hf
        exact applyAll_made hf fun fs => apply_mkdir_self fs _
      · exact h.place hne hslash hnew hpass hmade rfl
  · next hdir =>
    split
    · exact ⟨.nothing hle, fun _ h => by cases h⟩
    · have hparent : (target ++ ps).dropLast = target ++ ps.dropLast :=
        List.dropLast_append_of_ne_nil hne
      rw [hparent]
      split
      · exact ⟨.nothing hle, fun _ h => by cases h⟩
      · next dirs hdirs =>
        obtain ⟨hpass, hmade', hmade⟩ := createDirAll_some h.progress hdirs
        obtain ⟨hfresh, hsize⟩ := hmkdirs hdirs
        have hcareful : Careful target limit st dirs := ⟨hfresh, by rw [hsize]; exact hle⟩
        split
        · exact ⟨hcareful, fun _ h => by cases h⟩
        · next hnodir =>
          -- the parents are above the file, so its own path is as it was
          have hkept : applyAll st.fs dirs (target ++ ps) = st.fs (target ++ ps) := by
            apply applyAll_of_ne
            intro f hf hsame
            obtain ⟨qs, -, hpre, rfl, -⟩ := hmade' f hf
            have hlen := hpre.length_le
            rw [List.append_cancel_left hsame] at hne hlen
            rw [List.length_dropLast] at hlen
            have hpos := List.length_pos_of_ne_nil hne
            omega
          have hnone : st.fs (target ++ ps) = none := by
            cases hnode : st.fs (target ++ ps) with
            | none => rfl
            | some node =>
              cases node with
              | dir => exact absurd (hkept.trans hnode) hnodir
              | file c => exact absurd hnode (h.not_file hne hslash hnew c)
              | link t => exact absurd hnode (h.progress.noLink ps t)
          obtain ⟨hwrites, hroom, hok⟩ := writeChunks_spec (b := e.broken)
            (p := target ++ ps) hle (reader.chunks (128*1024) e.content)
          generalize hw : writeChunks limit st.totalWritten e.broken (target ++ ps)
            (reader.chunks (128*1024) e.content) = w at hwrites hroom hok
          have hsizes : sizes (dirs ++ .create (target ++ ps) :: w.1) = sizes w.1 := by
            have hcreate : (Effect.create (target ++ ps) : Effect UInt8).size = 0 := rfl
            rw [sizes_append, sizes_cons, hsize, hcreate, Nat.zero_add, Nat.zero_add]
          constructor
          · refine ⟨fun f hf => ?_, by rw [hsizes]; exact hroom⟩
            rcases List.mem_append.mp hf with hf | hf
            · exact hfresh f hf
            · have hat : f.path = target ++ ps := by
                rcases List.mem_cons.mp hf with rfl | hf
                · rfl
                · exact hwrites f hf
              rw [hat]
              exact ⟨below_of_ne_nil hne, hnone⟩
          · intro st' hst
            cases hout : w.2 with
            | error err =>
              rw [hout] at hst
              cases hst
            | ok t =>
              rw [hout] at hst
              cases hst
              obtain ⟨htotal, hwritten⟩ := hok t hout
              have hcreate : Effect.create (target ++ ps) ∈ dirs ++ .create (target ++ ps) :: w.1 :=
                List.mem_append_right _ (List.mem_cons_self ..)
              have hthere : ∀ f ∈ dirs ++ .create (target ++ ps) :: w.1,
                  applyAll st.fs (dirs ++ .create (target ++ ps) :: w.1) f.path ≠ none := by
                intro f hf
                rcases List.mem_append.mp hf with hdir' | hfile
                · obtain ⟨rs, -, -, rfl, -⟩ := hmade' f hdir'
                  exact applyAll_made hf fun fs => apply_mkdir_self fs _
                · have hat : f.path = target ++ ps := by
                    rcases List.mem_cons.mp hfile with rfl | hfile
                    · rfl
                    · exact hwrites f hfile
                  rw [hat]
                  exact applyAll_made hcreate fun fs => apply_create_self fs _
              refine ⟨rfl, by rw [hsizes]; exact htotal, hthere, ?_⟩
              have hempty : (apply (applyAll st.fs dirs) (.create (target ++ ps))) (target ++ ps) =
                  some (.file []) := Function.update_self ..
              have hfs : (applyAll st.fs (dirs ++ .create (target ++ ps) :: w.1)).subtree target =
                  ((st.fs.subtree target).makeDirs ps.dropLast).put ps (.file e.content) := by
                rw [applyAll_append, applyAll_cons, hwritten _ _ hempty, reader.whole,
                  List.nil_append, apply, Files.put, Files.put, Function.update_idem]
                rw [← hmade]
                exact subtree_put_below ps _
              have hfits : Unpack.Fits (st.fs.subtree target) ⟨ps, some e.content⟩ := by
                refine ⟨hpass, ?_⟩
                change st.fs (target ++ ps) ≠ some .dir
                rw [hnone]
                exact (Option.some_ne_none _).symm
              exact h.place hne hslash hnew hfits hfs rfl

theorem turn_spec (reader : Reader) (h : Unpacked target done st) (hle : st.totalWritten ≤ limit)
    (entry : Option StaticEntry) :
    Careful target limit st (turn reader limit target st entry).1 ∧
      ∀ st', (turn reader limit target st entry).2 = .ok st' → ∃ e, entry = some e ∧
        (∃ place, e.outputPath = .ok place) ∧
        Leaves target (e.item.toList ++ done) st (turn reader limit target st entry).1 st' := by
  cases entry with
  | none => exact ⟨.nothing hle, fun _ h => by cases h⟩
  | some e =>
    rw [turn]
    cases hpath : e.outputPath with
    | error err => exact ⟨.nothing hle, fun _ h => by cases h⟩
    | ok place =>
      cases place with
      | none =>
        refine ⟨.nothing hle, fun st' hst => ⟨e, rfl, ⟨_, hpath⟩, ?_⟩⟩
        cases hst
        have hitem : e.item = none := by rw [StaticEntry.item, hpath]
        rw [hitem]
        exact ⟨rfl, rfl, fun _ hf => absurd hf List.not_mem_nil, h⟩
      | some ps =>
        dsimp only
        split
        · exact ⟨.nothing hle, fun _ h => by cases h⟩
        · next hnew =>
          obtain ⟨hcareful, hok⟩ := createEntry_spec reader h hle hpath hnew
          have hitem : e.item = some ⟨ps, if e.isDir then none else some e.content⟩ := by
            rw [StaticEntry.item, hpath]
          refine ⟨hcareful, fun st' hst => ⟨e, rfl, ⟨_, hpath⟩, ?_⟩⟩
          rw [hitem]
          exact hok st' hst

/-- All turns, up to the one that fails: what the loop as a whole does. -/
structure Runs (target : Path) (limit : ℕ) (done : List (Item Bytes)) (st : State)
    (archive : Archive) (effects : List (List (Effect UInt8))) (outcome : Except EntryError State) :
    Prop where
  fresh : ∀ t ∈ effects, ∀ f ∈ t, Below target f.path ∧ st.fs f.path = none
  once : effects.Pairwise fun t t' => ∀ f ∈ t, ∀ f' ∈ t', f.path ≠ f'.path
  size : st.totalWritten + sizes effects.flatten ≤ limit
  ends : ∀ st', outcome = .ok st' → st'.fs = applyAll st.fs effects.flatten ∧
    (∀ entry ∈ archive, ∃ e, entry = some e ∧ ∃ place, e.outputPath = .ok place) ∧
      ∃ done', Unpacked target done' st' ∧ ∀ x, x ∈ done' ↔ x ∈ done ∨ x ∈ items archive

theorem turns_spec (reader : Reader) (h : Unpacked target done st) (hle : st.totalWritten ≤ limit)
    (archive : Archive) : Runs target limit done st archive
      (turns reader limit target st archive).1 (turns reader limit target st archive).2 := by
  induction archive generalizing st done with
  | nil =>
    refine ⟨fun _ ht => absurd ht List.not_mem_nil, .nil, hle, fun st' hst => ?_⟩
    cases hst
    exact ⟨rfl, fun _ he => absurd he List.not_mem_nil, done, h, fun x => by simp [items]⟩
  | cons entry rest ih =>
    obtain ⟨hcareful, hok⟩ := turn_spec reader h hle entry
    rw [turns]
    generalize turn reader limit target st entry = r at hcareful hok
    obtain ⟨effects, outcome⟩ := r
    cases outcome with
    | error err =>
      refine ⟨?_, List.pairwise_singleton _ _, ?_, fun _ h => by cases h⟩
      · intro t ht
        rw [List.mem_singleton.mp ht]
        exact hcareful.fresh
      · rw [List.flatten_singleton]
        exact hcareful.size
    | ok st₁ =>
      obtain ⟨e, rfl, hplace, hleaves⟩ := hok st₁ rfl
      have hle₁ : st₁.totalWritten ≤ limit := by
        rw [hleaves.total]
        exact hcareful.size
      have hrest := ih hleaves.unpacked hle₁
      dsimp only
      generalize turns reader limit target st₁ rest = r at hrest
      obtain ⟨later, outcome⟩ := r
      -- later turns meet nothing but free paths, and what this turn made is not free any more
      have hfree {p : Path} (hp : st₁.fs p = none) : st.fs p = none := by
        by_contra hthere
        rw [hleaves.fs] at hp
        exact applyAll_isSome hthere hp
      constructor
      · refine List.forall_mem_cons.mpr ⟨hcareful.fresh, fun t ht f hf => ?_⟩
        obtain ⟨hbelow, hnone⟩ := hrest.fresh t ht f hf
        exact ⟨hbelow, hfree hnone⟩
      · apply List.pairwise_cons.mpr
        refine ⟨fun t ht f hf f' hf' hsame => ?_, hrest.once⟩
        have hthere := hleaves.there f hf
        rw [hsame] at hthere
        exact hthere (hrest.fresh t ht f' hf').2
      · have hsize := hrest.size
        rw [hleaves.total] at hsize
        rw [List.flatten_cons, sizes_append, ← Nat.add_assoc]
        exact hsize
      · intro st' hst
        obtain ⟨hfs, hall, done', hunpacked, hmem⟩ := hrest.ends st' hst
        have hall' := List.forall_mem_cons.mpr ⟨⟨e, rfl, hplace⟩, hall⟩
        refine ⟨?_, hall', done', hunpacked, fun x => ?_⟩
        · rw [hfs, hleaves.fs, List.flatten_cons, applyAll_append]
        · rw [hmem, items_cons, List.mem_append, List.mem_append]
          tauto

end Turn

section Whole

/-- A file system as it is found: nothing lies below a path that is not there. -/
structure Found where
  files : Files Bytes
  closed : ∀ p q, files p = none → files (p ++ q) = none

theorem Unpacked.init (disk : Found) {target : Path} (h : disk.files target = none) :
    Unpacked target [] ⟨apply disk.files (.mkdir target), [], 0⟩ := by
  have hbelow {p : Path} (hp : p ≠ []) :
      apply disk.files (.mkdir target) (target ++ p) = none := by
    have hne : target ++ p ≠ target := fun hsame => hp (List.append_right_eq_self.mp hsame)
    rw [apply, Files.put, Function.update_of_ne hne, disk.closed target p h]
  have hsub : (apply disk.files (.mkdir target)).subtree target = Unpack.empty := by
    funext p
    by_cases hp : p = []
    · rw [hp, Files.subtree_nil_apply, Unpack.empty, if_pos rfl, apply, Files.put,
        Function.update_self]
    · rw [Unpack.empty, if_neg hp]
      exact hbelow hp
  constructor
  · rw [hsub]
    exact .init
  · intro p c
    have hno : (apply disk.files (.mkdir target)).subtree target p ≠ some (.file c) := by
      rw [hsub, Unpack.empty]
      split <;> simp
    refine ⟨fun hfile => absurd hfile hno, ?_⟩
    rintro ⟨x, hx, -⟩
    exact absurd hx List.not_mem_nil
  · intro x hx
    exact absurd hx List.not_mem_nil

theorem mem_items_iff {archive : Archive} {x : Item Bytes} :
    x ∈ items archive ↔ ∃ e, some e ∈ archive ∧ e.item = some x := by
  rw [items, List.mem_filterMap]
  constructor
  · rintro ⟨entry, hentry, hitem⟩
    obtain ⟨e, rfl, he⟩ := Option.bind_eq_some_iff.mp hitem
    exact ⟨e, hentry, he⟩
  · rintro ⟨e, he, hitem⟩
    exact ⟨some e, he, hitem⟩

theorem Placed.unique {e : StaticEntry} {ps qs : Path} (h : Placed e ps) (h' : Placed e qs) :
    ps = qs := by
  obtain ⟨relative, hrelative, rfl⟩ := h
  obtain ⟨relative', hrelative', rfl⟩ := h'
  rw [hrelative] at hrelative'
  cases hrelative'
  rfl

theorem items_files {archive : Archive}
    (h : ∀ entry ∈ archive, ∃ e, entry = some e ∧ ∃ place, e.outputPath = .ok place)
    (ps : Path) (c : Bytes) : (∃ x ∈ items archive, x.path = ps ∧ x.content = some c) ↔
      ∃ e, some e ∈ archive ∧ e.isDir = false ∧ Placed e ps ∧ e.content = c := by
  constructor
  · rintro ⟨x, hx, rfl, hc⟩
    obtain ⟨e, he, hitem⟩ := mem_items_iff.mp hx
    rw [StaticEntry.item] at hitem
    split at hitem
    · next ps hpath =>
      cases hitem
      dsimp only at hc
      split at hc
      · cases hc
      · next hdir =>
        exact ⟨e, he, Bool.not_eq_true _ ▸ hdir, (outputPath_placed hpath).1, Option.some.inj hc⟩
    · cases hitem
  · rintro ⟨e, he, hdir, hplaced, rfl⟩
    obtain ⟨e', hsame, place, hpath⟩ := h _ he
    cases hsame
    cases place with
    | none =>
      rw [isDir_of_outputPath_none hpath] at hdir
      cases hdir
    | some qs =>
      have hps := hplaced.unique (outputPath_placed hpath).1
      have hitem : e.item = some ⟨qs, some e.content⟩ := by
        rw [StaticEntry.item, hpath]
        dsimp only
        rw [hdir]
        rfl
      exact ⟨_, mem_items_iff.mpr ⟨e, he, hitem⟩, hps.symm, rfl⟩

/-- Whatever the archive: besides the target directory, which is created first and was not there,
only paths below it are touched, each by one entry and none that was there before, no link comes
up, and no more is written than the limit; and where the extraction succeeds the files below the
target are those of the archive, with an index. -/
theorem extractStaticArchive_safe (reader : Reader) (declaredSize : ℕ) (archive : Archive)
    (target : Path) (disk : Found) :
    let run := extractStaticArchive reader target declaredSize archive disk.files
    (run.done = [] ∨ ∃ later, run.done = [.mkdir target] :: later ∧
      ∀ t ∈ later, ∀ f ∈ t, Below target f.path) ∧
    (run.done.Pairwise fun t t' => ∀ f ∈ t, ∀ f' ∈ t', f.path ≠ f'.path) ∧
    (∀ t ∈ run.done, ∀ f ∈ t, disk.files f.path = none) ∧
    (∀ effects, effects <+: run.done.flatten → ∀ p link,
      applyAll disk.files effects p = some (.link link) → disk.files p = some (.link link)) ∧
    sizes run.done.flatten ≤ min (declaredSize*20) (1024*1024*1024) ∧
    ∀ fs, run.outcome = .ok fs → fs = applyAll disk.files run.done.flatten ∧
      (∀ ps c, fs (target ++ ps) = some (.file c) ↔
        ∃ e, some e ∈ archive ∧ e.isDir = false ∧ Placed e ps ∧ e.content = c) ∧
      ∃ c, fs (target ++ ["index.html"]) = some (.file c) := by
  intro run
  have hlinks : ∀ effects : List (Effect UInt8), effects <+: run.done.flatten → ∀ p link,
      applyAll disk.files effects p = some (.link link) → disk.files p = some (.link link) :=
    fun _ _ _ _ => applyAll_noLink
  by_cases hstart : disk.files target ≠ none ∨ disk.files target.dropLast ≠ some .dir
  · have hrun : run = ⟨[], .error (.extract
        "target directory must not exist and must be creatable exclusively")⟩ := if_pos hstart
    rw [hrun] at hlinks ⊢
    exact ⟨.inl rfl, .nil, nofun, hlinks, Nat.zero_le _, nofun⟩
  · have hnone : disk.files target = none := by
      by_contra hthere
      exact hstart (.inl hthere)
    generalize hstate : (⟨apply disk.files (.mkdir target), [], 0⟩ : State) = st
    have hinit : Unpacked target [] st := hstate ▸ Unpacked.init disk hnone
    have hzero : st.totalWritten = 0 := hstate ▸ rfl
    have hspec : Runs target (staticLimit declaredSize) [] st archive
        (turns reader (staticLimit declaredSize) target st archive).1
        (turns reader (staticLimit declaredSize) target st archive).2 :=
      turns_spec reader hinit (by rw [hzero]; exact Nat.zero_le _) archive
    generalize hturns : turns reader (staticLimit declaredSize) target st archive = r at hspec
    obtain ⟨later, outcome⟩ := r
    have hrun : run = ⟨[.mkdir target] :: later, finish target outcome⟩ := by
      change extractStaticArchive reader target declaredSize archive disk.files = _
      rw [extractStaticArchive, if_neg hstart, hstate, hturns]
    rw [hrun] at hlinks ⊢
    have hbelow : ∀ t ∈ later, ∀ f ∈ t, Below target f.path :=
      fun t ht f hf => (hspec.fresh t ht f hf).1
    have htarget {p : Path} (hp : Below target p) : p ≠ target := by
      rintro rfl
      obtain ⟨x, xs, hsame⟩ := hp
      exact absurd (List.append_right_eq_self.mp hsame.symm) (List.cons_ne_nil _ _)
    refine ⟨.inr ⟨later, rfl, hbelow⟩, ?_, ?_, hlinks, ?_, ?_⟩
    · refine List.pairwise_cons.mpr ⟨fun t ht f hf f' hf' => ?_, hspec.once⟩
      rw [List.mem_singleton.mp hf]
      exact (htarget (hbelow t ht f' hf')).symm
    · refine List.forall_mem_cons.mpr ⟨fun f hf => ?_, fun t ht f hf => ?_⟩
      · rw [List.mem_singleton.mp hf]
        exact hnone
      · by_contra hthere
        have hnew : apply disk.files (.mkdir target) f.path = none := by
          have hfresh := (hspec.fresh t ht f hf).2
          rw [← hstate] at hfresh
          exact hfresh
        exact apply_isSome hthere hnew
    · have hsize := hspec.size
      rw [hzero, Nat.zero_add] at hsize
      rw [List.flatten_cons, sizes_append]
      exact (Nat.zero_add _).symm ▸ hsize
    · intro fs hfs
      cases outcome with
      | error err => cases hfs
      | ok st =>
        obtain ⟨hst, hall, done, hunpacked, hdone⟩ := hspec.ends st rfl
        dsimp only [finish] at hfs
        split at hfs
        · next hindex =>
          cases hfs
          refine ⟨?_, fun ps c => ?_, ?_⟩
          · rw [hst, List.flatten_cons, applyAll_append, ← hstate]
            rfl
          · rw [hunpacked.contents, ← items_files hall]
            simp only [hdone, List.not_mem_nil, false_or]
          · have hname : follow target "index.html" = target ++ ["index.html"] :=
              follow_name (by decide) (by decide)
            rw [hname, Files.isFile] at hindex
            split at hindex
            · next c hc => exact ⟨c, hc⟩
            · cases hindex
        · cases hfs

end Whole

end LandscapeKit.Publish.Disk
