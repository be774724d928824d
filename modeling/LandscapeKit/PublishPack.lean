import LandscapeKit.LibLossy
import LandscapeKit.PublishUnpack

/-!
`static.zip` made from a directory. The entries are named by what is shown of their paths, and the
archive has to pass the check of the installer. A tree whose names are UTF-8 gives one entry for
each of its files and directories, under its own path.
-/

namespace LandscapeKit.Publish.Pack

open Lkb (joined zipPathParts)
open Unpack (Item)
open Utf8 (bytes lossy lossy_bytes IsUtf8)

section Model

/-- What `read_dir` yields, in its order, and what it yields below. -/
inductive Listing where
  | nil
  | file (name content : Bytes) (rest : Listing)
  | dir (name : Bytes) (sub rest : Listing)
  | other (name : Bytes) (rest : Listing)

/-- The components of a path, as Linux has them. -/
abbrev BytePath := List Bytes

def slash : UInt8 := 0x2F

def joinBytes (path : BytePath) : Bytes := List.intercalate [slash] path

def display (path : Bytes) : String := String.ofList (lossy path)

def zipName (path : BytePath) : String := display (joinBytes (bytes "static".toList :: path))

/-- The zip crate writes its entries as regular files and directories. -/
def packedFile (path : BytePath) (content : Bytes) : StaticEntry :=
  ⟨zipName path, some 0o100644, content.length, content, false⟩

def packedDir (path : BytePath) : StaticEntry :=
  ⟨zipName path ++ "/", some 0o040755, 0, [], false⟩

def packEntry (staticDir : Bytes) (above : BytePath) :
    Listing → Except RepositoryError (List StaticEntry)
  | .nil => .ok []
  | .file name content rest => do
    let later ← packEntry staticDir above rest
    return packedFile (above ++ [name]) content :: later
  | .dir name sub rest => do
    let inner ← packEntry staticDir (above ++ [name]) sub
    let later ← packEntry staticDir above rest
    return packedDir (above ++ [name]) :: (inner ++ later)
  | .other name _ =>
    .error (.extract ("the static directory contains an unsupported entry " ++
      display (joinBytes (staticDir :: (above ++ [name])))))

/-- What is used of the zip crate: how long the file of an archive gets. Its entries are read back
as they were written. -/
structure Zip where
  size : List StaticEntry → ℕ

def packStaticZip (zip : Zip) (reader : Reader) (staticDir : Bytes) (listing : Listing) :
    Except RepositoryError (List StaticEntry) := do
  let entries ← packEntry staticDir [] listing
  let _ ← extractStaticArchive reader (zip.size entries) (entries.map some)
  return entries

end Model

section Trees

/-- A name that Linux allows. -/
def IsFileName (name : Bytes) : Prop :=
  name ≠ [] ∧ slash ∉ name ∧ 0 ∉ name ∧ name ≠ bytes ".".toList ∧ name ≠ bytes "..".toList

def Listing.names : Listing → List Bytes
  | .nil => []
  | .file name _ rest => name :: rest.names
  | .dir name _ rest => name :: rest.names
  | .other name rest => name :: rest.names

/-- Files and directories only, with names of their own in each directory. -/
def Listing.Regular : Listing → Prop
  | .nil => True
  | .file name _ rest => IsFileName name ∧ name ∉ rest.names ∧ rest.Regular
  | .dir name sub rest => IsFileName name ∧ name ∉ rest.names ∧ sub.Regular ∧ rest.Regular
  | .other _ _ => False

/-- The paths of the tree, with the content of the files. -/
def Listing.flat (above : BytePath) : Listing → List (BytePath × Option Bytes)
  | .nil => []
  | .file name content rest => (above ++ [name], some content) :: rest.flat above
  | .dir name sub rest => (above ++ [name], none) :: (sub.flat (above ++ [name]) ++ rest.flat above)
  | .other _ rest => rest.flat above

def Listing.total : Listing → ℕ
  | .nil => 0
  | .file _ content rest => content.length + rest.total
  | .dir _ sub rest => sub.total + rest.total
  | .other _ rest => rest.total

/-- A tree that may be packed: it has an index, and not too much in it. -/
structure Tree where
  listing : Listing
  regular : listing.Regular
  index : ∃ content, ([bytes "index.html".toList], some content) ∈ listing.flat []
  fits : listing.total ≤ 1024*1024*1024

/-- The same paths with the same contents. -/
structure Recreates (fs : Files Bytes) (listing : Listing) : Prop where
  file : ∀ p c, (∃ q, q.map (fun name => bytes name.toList) = p ∧ fs q = some (.file c)) ↔
    (p, some c) ∈ listing.flat []
  dir : ∀ p, p ≠ [] → ((∃ q, q.map (fun name => bytes name.toList) = p ∧ fs q = some .dir) ↔
    (p, none) ∈ listing.flat [])
  noLink : ∀ q link, fs q ≠ some (.link link)

def entryOf (x : BytePath × Option Bytes) : StaticEntry :=
  match x.2 with
  | some content => packedFile x.1 content
  | none => packedDir x.1

theorem packEntry_ok (staticDir : Bytes) {listing : Listing} (h : listing.Regular)
    (above : BytePath) :
    packEntry staticDir above listing = .ok ((listing.flat above).map entryOf) := by
  induction listing generalizing above with
  | nil => rfl
  | file name content rest ih =>
    rw [packEntry, ih h.2.2]
    rfl
  | dir name sub rest ihsub ihrest =>
    rw [packEntry, ihsub h.2.2.1, ihrest h.2.2.2]
    simp only [Listing.flat, List.map_cons, List.map_append]
    rfl
  | other name rest => exact h.elim

theorem flat_above {listing : Listing} {above : BytePath} {x : BytePath × Option Bytes}
    (hx : x ∈ listing.flat above) :
    ∃ name ∈ listing.names, ∃ below, x.1 = above ++ name :: below := by
  induction listing generalizing above with
  | nil => cases hx
  | file name content rest ih =>
    rcases List.mem_cons.mp hx with rfl | hx
    · exact ⟨name, List.mem_cons_self .., [], rfl⟩
    · obtain ⟨name', hname, below, hpath⟩ := ih hx
      exact ⟨name', List.mem_cons_of_mem _ hname, below, hpath⟩
  | dir name sub rest ihsub ihrest =>
    rcases List.mem_cons.mp hx with rfl | hx
    · exact ⟨name, List.mem_cons_self .., [], rfl⟩
    · rcases List.mem_append.mp hx with hx | hx
      · obtain ⟨name', -, below, hpath⟩ := ihsub hx
        refine ⟨name, List.mem_cons_self .., name' :: below, ?_⟩
        rw [hpath, List.append_assoc]
        rfl
      · obtain ⟨name', hname, below, hpath⟩ := ihrest hx
        exact ⟨name', List.mem_cons_of_mem _ hname, below, hpath⟩
  | other name rest ih =>
    obtain ⟨name', hname, below, hpath⟩ := ih hx
    exact ⟨name', List.mem_cons_of_mem _ hname, below, hpath⟩

theorem not_prefix_of_names {above : BytePath} {name name' : Bytes} {p q below below' : BytePath}
    (hne : name ≠ name') (hp : p = above ++ name :: below) (hq : q = above ++ name' :: below') :
    ¬ p <+: q := by
  rintro ⟨more, hmore⟩
  rw [hp, hq, List.append_assoc, List.append_cancel_left_eq, List.cons_append,
    List.cons.injEq] at hmore
  exact hne hmore.1

theorem flat_closed {listing : Listing} {above : BytePath} {x : BytePath × Option Bytes}
    (hx : x ∈ listing.flat above) {p : BytePath} (hp : p <+: x.1) (hne : p ≠ x.1)
    (habove : above <+: p) (hne' : p ≠ above) : (p, none) ∈ listing.flat above := by
  induction listing generalizing above with
  | nil => cases hx
  | file name content rest ih =>
    rcases List.mem_cons.mp hx with rfl | hx
    · -- nothing lies between a directory and its entry
      rcases List.prefix_concat_iff.mp hp with hsame | hp
      · exact absurd hsame hne
      · exact absurd (hp.eq_of_length (Nat.le_antisymm hp.length_le habove.length_le)) hne'
    · exact List.mem_cons_of_mem _ (ih hx habove hne')
  | dir name sub rest ihsub ihrest =>
    rcases List.mem_cons.mp hx with rfl | hx
    · rcases List.prefix_concat_iff.mp hp with hsame | hp
      · exact absurd hsame hne
      · exact absurd (hp.eq_of_length (Nat.le_antisymm hp.length_le habove.length_le)) hne'
    · rcases List.mem_append.mp hx with hx | hx
      · obtain ⟨name', -, below, hpath⟩ := flat_above hx
        by_cases hself : p = above ++ [name]
        · rw [hself]
          exact List.mem_cons_self ..
        · have hdown : above ++ [name] <+: p := by
            have hunder : above ++ [name] <+: x.1 := by
              rw [hpath]
              exact List.prefix_append ..
            rcases List.prefix_or_prefix_of_prefix hunder hp with h | h
            · exact h
            · rcases List.prefix_concat_iff.mp h with h | h
              · exact absurd h hself
              · exact absurd (h.eq_of_length (Nat.le_antisymm h.length_le habove.length_le)) hne'
          exact List.mem_cons_of_mem _ (List.mem_append_left _ (ihsub hx hdown hself))
      · exact List.mem_cons_of_mem _ (List.mem_append_right _ (ihrest hx habove hne'))
  | other name rest ih => exact ih hx habove hne'

/-- Neither is at the other's place, and neither is a file above the other. -/
structure Clear (x y : BytePath × Option Bytes) : Prop where
  path : x.1 ≠ y.1
  left : x.2.isSome → ¬ x.1 <+: y.1
  right : y.2.isSome → ¬ y.1 <+: x.1

theorem clear_of_names {above : BytePath} {name name' : Bytes} {below below' : BytePath}
    {x y : BytePath × Option Bytes} (hne : name ≠ name') (hx : x.1 = above ++ name :: below)
    (hy : y.1 = above ++ name' :: below') : Clear x y := by
  have hxy := not_prefix_of_names hne hx hy
  have hyx := not_prefix_of_names (Ne.symm hne) hy hx
  exact ⟨fun hsame => hxy (hsame ▸ List.prefix_refl _), fun _ => hxy, fun _ => hyx⟩

theorem flat_clear {listing : Listing} (h : listing.Regular) (above : BytePath) :
    (listing.flat above).Pairwise Clear := by
  induction listing generalizing above with
  | nil => exact .nil
  | file name content rest ih =>
    refine List.pairwise_cons.mpr ⟨fun y hy => ?_, ih h.2.2 above⟩
    obtain ⟨name', hname, below, hpath⟩ := flat_above hy
    have hne : name ≠ name' := fun hsame => h.2.1 (hsame ▸ hname)
    exact clear_of_names hne (show _ = above ++ name :: [] from rfl) hpath
  | dir name sub rest ihsub ihrest =>
    have hsub {y : BytePath × Option Bytes} (hy : y ∈ sub.flat (above ++ [name])) :
        ∃ below, y.1 = above ++ name :: below ∧ below ≠ [] := by
      obtain ⟨name', -, below, hpath⟩ := flat_above hy
      rw [List.append_assoc] at hpath
      exact ⟨name' :: below, hpath, List.cons_ne_nil _ _⟩
    have hrest {y : BytePath × Option Bytes} (hy : y ∈ rest.flat above) :
        ∃ name', name ≠ name' ∧ ∃ below, y.1 = above ++ name' :: below := by
      obtain ⟨name', hname, hpath⟩ := flat_above hy
      exact ⟨name', fun hsame => h.2.1 (hsame ▸ hname), hpath⟩
    refine List.pairwise_cons.mpr ⟨fun y hy => ?_, ?_⟩
    · rcases List.mem_append.mp hy with hy | hy
      · obtain ⟨below, hpath, hne⟩ := hsub hy
        have hlonger : (above ++ [name]).length < y.1.length := by
          have hpos := List.length_pos_of_ne_nil hne
          simp only [hpath, List.length_append, List.length_cons, List.length_nil]
          omega
        refine ⟨fun hsame => ?_, nofun, fun _ hpre => ?_⟩
        · rw [← hsame] at hlonger
          exact absurd hlonger (Nat.lt_irrefl _)
        · exact absurd hlonger (Nat.not_lt.mpr hpre.length_le)
      · obtain ⟨name', hne, below, hpath⟩ := hrest hy
        exact clear_of_names hne (show _ = above ++ name :: [] from rfl) hpath
    · refine List.pairwise_append.mpr ⟨ihsub h.2.2.1 _, ihrest h.2.2.2 _, fun x hx y hy => ?_⟩
      obtain ⟨below, hpath, -⟩ := hsub hx
      obtain ⟨name', hne, below', hpath'⟩ := hrest hy
      exact clear_of_names hne hpath hpath'
  | other name rest => exact h.elim

theorem flat_names {listing : Listing} (h : listing.Regular) {above : BytePath}
    {x : BytePath × Option Bytes} (hx : x ∈ listing.flat above) :
    ∀ name ∈ x.1, name ∈ above ∨ IsFileName name := by
  induction listing generalizing above with
  | nil => cases hx
  | file name content rest ih =>
    rcases List.mem_cons.mp hx with rfl | hx
    · intro name' hname'
      rcases List.mem_append.mp hname' with hname' | hname'
      · exact .inl hname'
      · rw [List.mem_singleton.mp hname']
        exact .inr h.1
    · exact ih h.2.2 hx
  | dir name sub rest ihsub ihrest =>
    have hlast : ∀ name' ∈ above ++ [name], name' ∈ above ∨ IsFileName name' := by
      intro name' hname'
      rcases List.mem_append.mp hname' with hname' | hname'
      · exact .inl hname'
      · rw [List.mem_singleton.mp hname']
        exact .inr h.1
    rcases List.mem_cons.mp hx with rfl | hx
    · exact hlast
    · rcases List.mem_append.mp hx with hx | hx
      · intro name' hname'
        rcases ihsub h.2.2.1 hx name' hname' with hname' | hname'
        · exact hlast name' hname'
        · exact .inr hname'
      · exact ihrest h.2.2.2 hx
  | other name rest => exact h.elim

end Trees

section Names

def Admitted (name : Bytes) : Prop := ∃ ps, zipPathParts (display name) = .ok ps

theorem bytes_display {name : Bytes} (h : IsUtf8 name) : bytes (display name).toList = name := by
  rw [display, String.toList_ofList]
  exact h

theorem bytes_intercalate (texts : List Text) :
    bytes (List.intercalate ['/'] texts) = List.intercalate [slash] (texts.map bytes) := by
  induction texts with
  | nil => rfl
  | cons t texts ih =>
    cases texts with
    | nil => simp
    | cons t' texts =>
      have hslash : bytes ['/'] = [slash] := by decide +kernel
      rw [List.intercalate_cons_cons, Utf8.bytes_append, Utf8.bytes_append, ih, hslash,
        List.map_cons, List.map_cons, List.map_cons, List.intercalate_cons_cons]

theorem map_bytes_lossy {path : BytePath} (h : ∀ name ∈ path, IsUtf8 name) :
    (path.map lossy).map bytes = path := by
  rw [List.map_map]
  exact (List.map_congr_left h).trans (List.map_id path)

theorem zipName_eq {path : BytePath} (h : ∀ name ∈ path, IsUtf8 name) (hne : path ≠ []) :
    (zipName path).toList = "static/".toList ++ List.intercalate ['/'] (path.map lossy) := by
  have hjoin : joinBytes (bytes "static".toList :: path) =
      bytes (List.intercalate ['/'] ("static".toList :: path.map lossy)) := by
    rw [bytes_intercalate, List.map_cons, map_bytes_lossy h, joinBytes]
  obtain ⟨name, names, rfl⟩ := List.exists_cons_of_ne_nil hne
  rw [zipName, display, hjoin, lossy_bytes, String.toList_ofList, List.map_cons,
    List.intercalate_cons_cons]
  rfl

/-- What an entry is called below `static/`. -/
def relativeOf (x : BytePath × Option Bytes) : Text :=
  List.intercalate ['/'] (x.1.map lossy) ++ if x.2.isSome then [] else ['/']

/-- A path of a tree whose names are UTF-8. -/
structure IsNamed (path : BytePath) : Prop where
  nonempty : path ≠ []
  file : ∀ name ∈ path, IsFileName name
  utf8 : ∀ name ∈ path, IsUtf8 name

variable {path : BytePath} {x : BytePath × Option Bytes}

theorem name_entryOf (h : IsNamed x.1) :
    (entryOf x).name.toList = "static/".toList ++ relativeOf x := by
  rw [entryOf, relativeOf]
  cases x.2 with
  | none =>
    dsimp only
    rw [packedDir, String.toList_append, zipName_eq h.utf8 h.nonempty, List.append_assoc]
    rfl
  | some content =>
    dsimp only
    have hsome : (some content).isSome = true := rfl
    rw [packedFile, zipName_eq h.utf8 h.nonempty, if_pos hsome, List.append_nil]

theorem eq_of_lossy {name : Bytes} (h : IsUtf8 name) {text : Text} (hsame : lossy name = text) :
    name = bytes text := by
  rw [← hsame]
  exact h.symm

theorem slash_not_mem_lossy {name : Bytes} (h : IsUtf8 name) (hname : IsFileName name) :
    '/' ∉ lossy name := by
  intro hslash
  apply hname.2.1
  rw [← show bytes (lossy name) = name from h]
  exact (Utf8.mem_bytes '/' (by decide) _).mpr hslash

theorem IsNamed.isName (h : IsNamed path) : ∀ name ∈ path.map display,
    (name ≠ "" ∧ name ≠ "." ∧ name ≠ "..") ∧ '/' ∉ name.toList := by
  intro name hname
  obtain ⟨raw, hraw, rfl⟩ := List.mem_map.mp hname
  have hfile := h.file raw hraw
  have hutf8 := h.utf8 raw hraw
  have hno {text : String} (hne : raw ≠ bytes text.toList) : display raw ≠ text := by
    intro hsame
    apply hne
    apply eq_of_lossy hutf8
    rw [← hsame, display, String.toList_ofList]
  refine ⟨⟨hno hfile.1, hno hfile.2.2.2.1, hno hfile.2.2.2.2⟩, ?_⟩
  rw [display, String.toList_ofList]
  exact slash_not_mem_lossy hutf8 hfile

theorem splitOn_relativeOf (h : IsNamed x.1) : (relativeOf x).splitOn '/' =
    x.1.map lossy ++ if x.2.isSome then [] else [[]] := by
  have hfree : ∀ text ∈ x.1.map lossy, '/' ∉ text := by
    intro text htext
    obtain ⟨name, hname, rfl⟩ := List.mem_map.mp htext
    exact slash_not_mem_lossy (h.utf8 name hname) (h.file name hname)
  have hsplit : (List.intercalate ['/'] (x.1.map lossy)).splitOn '/' = x.1.map lossy :=
    List.splitOn_intercalate _ hfree (by simpa using h.nonempty)
  rw [relativeOf]
  split
  · rw [List.append_nil, List.append_nil, hsplit]
  · rw [List.splitOn_append_cons_self, hsplit, List.splitOn_nil]

theorem parts_relativeOf (h : IsNamed x.1) :
    (parts (String.ofList (relativeOf x))).filter (· ≠ "") = x.1.map display := by
  have hkept : (x.1.map display).filter (· ≠ "") = x.1.map display :=
    List.filter_eq_self.mpr fun name hname => decide_eq_true (h.isName name hname).1.1
  have hmap : (x.1.map lossy).map String.ofList = x.1.map display := by
    rw [List.map_map]
    rfl
  rw [parts, String.toList_ofList, splitOn_relativeOf h, List.map_append, List.filter_append, hmap,
    hkept]
  split
  · rw [List.map_nil, List.filter_nil, List.append_nil]
  · rw [List.map_singleton, List.filter_cons_of_neg (by decide), List.filter_nil, List.append_nil]

theorem outputPath_entryOf (h : IsNamed x.1) : (entryOf x).outputPath =
    match zipPathParts (String.ofList (relativeOf x)) with
    | .error reason => .error (.unsafePath (entryOf x).name reason)
    | .ok _ => .ok (some (x.1.map display)) := by
  have hsymlink : (entryOf x).isSymlink = false := by
    rw [entryOf]
    cases x.2 <;> rfl
  have hspecial : (entryOf x).isSpecial = false := by
    rw [entryOf]
    cases x.2 <;> rfl
  have hlead : Text.stripLead "static/".toList (entryOf x).name.toList = some (relativeOf x) := by
    rw [name_entryOf h, Text.stripLead_append]
  rw [StaticEntry.outputPath, hsymlink, hspecial, if_neg (by decide), if_neg (by decide), hlead]
  dsimp only
  cases hparts : zipPathParts (String.ofList (relativeOf x)) with
  | error reason => rfl
  | ok qs =>
    have hqs : qs = x.1.map display := by
      rw [zipPathParts] at hparts
      split at hparts
      · cases hparts
      · rw [(Disk.collectParts_ok hparts).1, parts_relativeOf h]
    obtain ⟨q, qs', hcons⟩ : ∃ q qs', x.1.map display = q :: qs' :=
      List.exists_cons_of_ne_nil (by simpa using h.nonempty)
    rw [hqs, hcons]

theorem mem_intercalate {c sep : Char} {texts : List Text}
    (h : c ∈ List.intercalate [sep] texts) : c = sep ∨ ∃ text ∈ texts, c ∈ text := by
  induction texts with
  | nil => cases h
  | cons text texts ih =>
    cases texts with
    | nil =>
      rw [List.intercalate_singleton] at h
      exact .inr ⟨text, List.mem_singleton_self _, h⟩
    | cons text' texts =>
      rw [List.intercalate_cons_cons, List.mem_append, List.mem_append, List.mem_singleton] at h
      rcases h with (h | h) | h
      · exact .inr ⟨text, List.mem_cons_self .., h⟩
      · exact .inl h
      · rcases ih h with h | ⟨t, ht, h⟩
        · exact .inl h
        · exact .inr ⟨t, List.mem_cons_of_mem _ ht, h⟩

theorem mem_relativeOf {c : Char} (hc : c ≠ '/') (h : c ∈ relativeOf x) :
    ∃ name ∈ x.1, c ∈ lossy name := by
  have hmem : c ∈ List.intercalate ['/'] (x.1.map lossy) := by
    rw [relativeOf] at h
    rcases List.mem_append.mp h with h | h
    · exact h
    · split at h
      · cases h
      · exact absurd (List.mem_singleton.mp h) hc
  rcases mem_intercalate hmem with h | ⟨text, htext, h⟩
  · exact absurd h hc
  · obtain ⟨name, hname, rfl⟩ := List.mem_map.mp htext
    exact ⟨name, hname, h⟩

theorem collectParts_of_admitted {ps : List String}
    (h : ∀ p ∈ ps, p = "" ∨ (p ≠ "." ∧ p ≠ "..") ∧ ':' ∉ p.toList) :
    ∃ qs, Lkb.collectParts ps = .ok qs := by
  induction ps with
  | nil => exact ⟨[], rfl⟩
  | cons p ps ih =>
    obtain ⟨hp, hps⟩ := List.forall_mem_cons.mp h
    obtain ⟨qs, hqs⟩ := ih hps
    rw [Lkb.collectParts, hqs]
    rcases hp with hempty | ⟨hdots, hcolon⟩
    · exact ⟨qs, if_pos hempty⟩
    · by_cases hempty : p = ""
      · exact ⟨qs, if_pos hempty⟩
      · rw [if_neg hempty, if_neg (not_or.mpr hdots), if_neg hcolon]
        exact ⟨p :: qs, rfl⟩

theorem Admitted.chars {name : Bytes} (h : Admitted name) (hfile : IsFileName name)
    (hutf8 : IsUtf8 name) : '\\' ∉ lossy name ∧ ':' ∉ lossy name := by
  obtain ⟨ps, hps⟩ := h
  have hslash := slash_not_mem_lossy hutf8 hfile
  have hempty : display name ≠ "" := by
    intro hsame
    apply hfile.1
    have hnil : lossy name = "".toList := by
      rw [← hsame, display, String.toList_ofList]
    exact eq_of_lossy hutf8 hnil
  rw [zipPathParts, display, String.toList_ofList] at hps
  split at hps
  · cases hps
  · rename_i hfree
    refine ⟨fun h => hfree (.inl h), fun hcolon => ?_⟩
    have hparts : parts (String.ofList (lossy name)) = [display name] := by
      rw [parts, String.toList_ofList, List.splitOn_eq_singleton hslash]
      rfl
    rw [hparts, Lkb.collectParts, if_neg hempty] at hps
    split at hps
    · cases hps
    · rw [if_pos (by rwa [display, String.toList_ofList])] at hps
      cases hps

theorem zipPathParts_of_admitted (h : IsNamed x.1) (hadmitted : ∀ name ∈ x.1, Admitted name) :
    ∃ ps, zipPathParts (String.ofList (relativeOf x)) = .ok ps := by
  have hchars (name : Bytes) (hname : name ∈ x.1) :=
    (hadmitted name hname).chars (h.file name hname) (h.utf8 name hname)
  have hfree : ¬ ('\\' ∈ relativeOf x ∨ '\x00' ∈ relativeOf x) := by
    rintro (hc | hc)
    · obtain ⟨name, hname, hc⟩ := mem_relativeOf (by decide) hc
      exact (hchars name hname).1 hc
    · obtain ⟨name, hname, hc⟩ := mem_relativeOf (by decide) hc
      apply (h.file name hname).2.2.1
      rw [← show bytes (lossy name) = name from h.utf8 name hname]
      exact (Utf8.mem_bytes '\x00' (by decide) _).mpr hc
  rw [zipPathParts, String.toList_ofList, if_neg hfree]
  apply collectParts_of_admitted
  intro p hp
  by_cases hempty : p = ""
  · exact .inl hempty
  · have hmem : p ∈ x.1.map display := by
      rw [← parts_relativeOf h]
      exact List.mem_filter.mpr ⟨hp, decide_eq_true hempty⟩
    obtain ⟨name, hname, rfl⟩ := List.mem_map.mp hmem
    refine .inr ⟨(h.isName _ hmem).1.2, ?_⟩
    rw [display, String.toList_ofList]
    exact (hchars name hname).2

theorem isDir_entryOf (h : IsNamed x.1) (hok : ∃ place, (entryOf x).outputPath = .ok place) :
    (entryOf x).isDir = x.2.isNone := by
  obtain ⟨place, hplace⟩ := hok
  have houtput := outputPath_entryOf h
  cases hx : x.2 with
  | none =>
    have hlast : (entryOf x).name.toList.getLast? = some '/' := by
      rw [entryOf, hx]
      dsimp only
      rw [packedDir, String.toList_append]
      exact List.getLast?_concat ..
    exact decide_eq_true (.inl hlast)
  | some content =>
    have hsplit := splitOn_relativeOf h
    rw [hx, if_pos (show (some content).isSome = true from rfl), List.append_nil] at hsplit
    have hpieces : [] ∉ (relativeOf x).splitOn '/' := by
      rw [hsplit]
      intro hmem
      obtain ⟨name, hname, hnil⟩ := List.mem_map.mp hmem
      exact (h.file name hname).1 (eq_of_lossy (h.utf8 name hname) hnil)
    have hne : relativeOf x ≠ [] := by
      intro hnil
      rw [hnil, List.splitOn_nil] at hpieces
      exact hpieces (List.mem_singleton_self _)
    apply decide_eq_false
    rw [name_entryOf h, List.getLast?_append_of_ne_nil _ hne]
    rintro (hlast | hlast)
    · -- a slash at the end would be followed by an empty piece
      obtain ⟨init, hinit⟩ := List.getLast?_eq_some_iff.mp hlast
      rw [hinit, List.splitOn_append_cons_self, List.splitOn_nil] at hpieces
      exact hpieces (List.mem_append_right _ (List.mem_singleton_self _))
    · rw [zipPathParts, String.toList_ofList, if_pos (.inl (List.mem_of_getLast? hlast)),
        hplace] at houtput
      cases houtput

theorem item_entryOf (h : IsNamed x.1) (hok : ∃ place, (entryOf x).outputPath = .ok place) :
    (entryOf x).item = some ⟨x.1.map display, x.2⟩ := by
  have hdir := isDir_entryOf h hok
  obtain ⟨place, hplace⟩ := hok
  have houtput := outputPath_entryOf h
  cases hparts : zipPathParts (String.ofList (relativeOf x)) with
  | error reason =>
    rw [hparts, hplace] at houtput
    cases houtput
  | ok ps =>
    rw [hparts] at houtput
    rw [StaticEntry.item, houtput, hdir]
    dsimp only
    cases hx : x.2 with
    | none => rfl
    | some content =>
      have hcontent : (entryOf x).content = content := by rw [entryOf, hx]; rfl
      rw [hcontent]
      rfl

end Names

end LandscapeKit.Publish.Pack
