import LandscapeKit.PublishPack

/-!
A packed tree is unpacked as it was. The check that packing makes for this is the installer's, with
its limit on how much an archive may grow: a tree that compresses better is refused.
-/

namespace LandscapeKit.Publish.Pack

open Lkb (joined joined_inj zipPathParts)
open Unpack (Item)
open Utf8 (bytes lossy lossy_bytes IsUtf8)

section Archive

variable {tree : Tree}

def Tree.flat (tree : Tree) : List (BytePath × Option Bytes) := tree.listing.flat []

def Tree.Utf8 (tree : Tree) : Prop := ∀ x ∈ tree.flat, ∀ name ∈ x.1, IsUtf8 name

def Tree.Admitted (tree : Tree) : Prop := ∀ x ∈ tree.flat, ∀ name ∈ x.1, Pack.Admitted name

def Tree.entries (tree : Tree) : List StaticEntry := tree.flat.map entryOf

def weightOf (x : BytePath × Option Bytes) : ℕ := (x.2.map List.length).getD 0

theorem sum_weightOf (listing : Listing) (above : BytePath) :
    ((listing.flat above).map weightOf).sum = listing.total := by
  induction listing generalizing above with
  | nil => rfl
  | file name content rest ih =>
    rw [Listing.flat, List.map_cons, List.sum_cons, ih]
    rfl
  | dir name sub rest ihsub ihrest =>
    rw [Listing.flat, List.map_cons, List.sum_cons, List.map_append, List.sum_append, ihsub, ihrest]
    exact Nat.zero_add _
  | other name rest ih => exact ih above

theorem Tree.isNamed (hutf8 : tree.Utf8) {x : BytePath × Option Bytes} (hx : x ∈ tree.flat) :
    IsNamed x.1 := by
  refine ⟨?_, fun name hname => ?_, hutf8 x hx⟩
  · obtain ⟨name, -, below, hpath⟩ := flat_above hx
    rw [hpath]
    exact List.cons_ne_nil _ _
  · exact (flat_names tree.regular hx name hname).resolve_left (List.not_mem_nil)

def Placeable (l : List (BytePath × Option Bytes)) : Prop :=
  ∀ x ∈ l, ∃ place, (entryOf x).outputPath = .ok place

theorem items_packed {l : List (BytePath × Option Bytes)} (hnamed : ∀ x ∈ l, IsNamed x.1)
    (hok : Placeable l) : items ((l.map entryOf).map some) =
      l.map fun x => ⟨x.1.map display, x.2⟩ := by
  induction l with
  | nil => rfl
  | cons x l ih =>
    obtain ⟨hx, hl⟩ := List.forall_mem_cons.mp hnamed
    obtain ⟨hokx, hokl⟩ := List.forall_mem_cons.mp hok
    rw [List.map_cons, List.map_cons, items_cons, item_entryOf hx hokx, ih hl hokl]
    rfl

theorem weight_entryOf {x : BytePath × Option Bytes} (h : IsNamed x.1)
    (hok : ∃ place, (entryOf x).outputPath = .ok place) : (entryOf x).weight = weightOf x := by
  rw [StaticEntry.weight, isDir_entryOf h hok, weightOf, entryOf]
  cases x.2 <;> rfl

theorem sound_packed {l : List (BytePath × Option Bytes)} (hnamed : ∀ x ∈ l, IsNamed x.1)
    {limit before : ℕ} (hbefore : before ≤ limit) :
    Sound limit before ((l.map entryOf).map some) ↔
      Placeable l ∧ before + (l.map weightOf).sum ≤ limit := by
  induction l generalizing before with
  | nil => simpa [Sound, Placeable] using hbefore
  | cons x l ih =>
    obtain ⟨hx, hl⟩ := List.forall_mem_cons.mp hnamed
    rw [List.map_cons, List.map_cons, Sound, List.map_cons, List.sum_cons, Placeable,
      List.forall_mem_cons]
    constructor
    · rintro ⟨hok, hfits, hsound⟩
      have hweight := weight_le hbefore hfits
      obtain ⟨hokl, hroom⟩ := (ih hl hweight).mp hsound
      rw [weight_entryOf hx hok, Nat.add_assoc] at hroom
      exact ⟨⟨hok, hokl⟩, hroom⟩
    · rintro ⟨⟨hok, hokl⟩, hroom⟩
      have hweight := weight_entryOf hx hok
      have hfits : (entryOf x).Fits limit before := by
        rw [StaticEntry.Fits, isDir_entryOf hx hok]
        rw [weightOf] at hroom
        cases hcontent : x.2 with
        | none => exact .inl rfl
        | some content =>
          rw [hcontent] at hroom
          simp only [Option.map_some, Option.getD_some] at hroom
          rw [entryOf, hcontent]
          dsimp only [packedFile]
          exact .inr ⟨by omega, by omega, rfl⟩
      refine ⟨hok, hfits, (ih hl (weight_le hbefore hfits)).mpr ⟨hokl, ?_⟩⟩
      rw [hweight, Nat.add_assoc]
      exact hroom

end Archive

section Unpacked

variable {tree : Tree}

def bytesOf (path : Path) : BytePath := path.map fun name => bytes name.toList

theorem bytesOf_display {path : BytePath} (h : ∀ name ∈ path, IsUtf8 name) :
    bytesOf (path.map display) = path := by
  rw [bytesOf, List.map_map]
  exact (List.map_congr_left fun name hname => bytes_display (h name hname)).trans
    (List.map_id path)

theorem prefix_of_display {p q : BytePath} (hp : ∀ name ∈ p, IsUtf8 name)
    (hq : ∀ name ∈ q, IsUtf8 name) (h : p.map display <+: q.map display) : p <+: q := by
  have hmap := List.IsPrefix.map (fun name : String => bytes name.toList) h
  rwa [← bytesOf, ← bytesOf, bytesOf_display hp, bytesOf_display hq] at hmap

theorem pairwise_items (hutf8 : tree.Utf8) :
    (tree.flat.map fun x => (⟨x.1.map display, x.2⟩ : Item Bytes)).Pairwise fun x y =>
      x.path ≠ y.path ∧ Unpack.Compatible x y := by
  rw [List.pairwise_map]
  apply List.Pairwise.imp_of_mem _ (flat_clear tree.regular [])
  intro x y hx hy hclear
  have hx := (tree.isNamed hutf8 hx).utf8
  have hy := (tree.isNamed hutf8 hy).utf8
  refine ⟨fun hsame => hclear.path ?_, fun ⟨hfile, hpre⟩ => ?_, fun ⟨hfile, hpre⟩ => ?_⟩
  · rw [← bytesOf_display hx, ← bytesOf_display hy]
    exact congrArg bytesOf hsame
  · exact hclear.left hfile (prefix_of_display hx hy hpre)
  · exact hclear.right hfile (prefix_of_display hy hx hpre)

theorem items_entries (hutf8 : tree.Utf8) (hok : Placeable tree.flat) :
    items (tree.entries.map some) = tree.flat.map fun x => ⟨x.1.map display, x.2⟩ :=
  items_packed (fun _ hx => tree.isNamed hutf8 hx) hok

theorem recreates (hutf8 : tree.Utf8) {reader : Reader} {length : ℕ} {fs : Files Bytes}
    (h : extractStaticArchive reader length (tree.entries.map some) = .ok fs) :
    Recreates fs tree.listing := by
  obtain ⟨hsound, hnodup, hfits, rfl⟩ := extractStaticArchive_placed h
  have hok := ((sound_packed (fun _ hx => tree.isNamed hutf8 hx) (Nat.zero_le _)).mp hsound).1
  have hne : ∀ x ∈ items (tree.entries.map some), x.path ≠ [] := fun x hx => (items_names hx).1
  have hprogress := Unpack.Progress.init.run hne hfits
  have hfiles {p : Path} {c : Bytes} := Unpack.Progress.init.placeAll_file_iff
    (p := p) (c := c) hne hnodup (fun _ _ _ hy => absurd hy List.not_mem_nil) hfits
  rw [List.append_nil] at hprogress
  generalize hfs : Unpack.placeAll Unpack.empty (items (tree.entries.map some)) = fs at *
  rw [items_entries hutf8 hok] at hprogress hfiles
  have hutf8' {x : BytePath × Option Bytes} (hx : x ∈ tree.flat) : ∀ name ∈ x.1, IsUtf8 name :=
    hutf8 x hx
  constructor
  · intro p c
    have hempty (q : Path) : (Unpack.empty : Files Bytes) q ≠ some (.file c) := by
      rw [Unpack.empty]
      split <;> simp
    constructor
    · rintro ⟨q, rfl, hq⟩
      obtain ⟨y, hy, rfl, hc⟩ := (hfiles.mp hq).resolve_left (hempty q)
      obtain ⟨x, hx, rfl⟩ := List.mem_map.mp hy
      dsimp only at hc ⊢
      rw [← bytesOf, bytesOf_display (hutf8' hx), ← hc]
      exact hx
    · intro hx
      refine ⟨p.map display, bytesOf_display (hutf8' hx), hfiles.mpr (.inr ?_)⟩
      exact ⟨_, List.mem_map_of_mem hx, rfl, rfl⟩
  · intro p hp
    constructor
    · rintro ⟨q, rfl, hq⟩
      rcases (hprogress.dir q).mp hq with rfl | ⟨y, hy, hpre, hkind⟩
      · exact absurd rfl hp
      · obtain ⟨x, hx, rfl⟩ := List.mem_map.mp (List.mem_reverse.mp hy)
        have hpre' := List.IsPrefix.map (fun name : String => bytes name.toList) hpre
        rw [← bytesOf, ← bytesOf, bytesOf_display (hutf8' hx)] at hpre'
        by_cases hsame : bytesOf q = x.1
        · have hlen := congrArg List.length hsame
          rw [bytesOf, List.length_map] at hlen
          have hq : q = x.1.map display := hpre.eq_of_length (by rw [List.length_map, hlen])
          have hnone : x.2 = none := hkind.resolve_right fun hno => hno hq
          rw [← bytesOf, hsame, ← hnone]
          exact hx
        · exact flat_closed hx hpre' hsame List.nil_prefix hp
    · intro hx
      refine ⟨p.map display, bytesOf_display (hutf8' hx), (hprogress.dir _).mpr (.inr ?_)⟩
      exact ⟨_, List.mem_reverse.mpr (List.mem_map_of_mem hx), List.prefix_refl _, .inl rfl⟩
  · exact hprogress.noLink

end Unpacked

section Pack

variable {tree : Tree} (zip : Zip) (reader : Reader) (staticDir : Bytes)

theorem packStaticZip_ok_iff {entries : List StaticEntry} :
    packStaticZip zip reader staticDir tree.listing = .ok entries ↔ entries = tree.entries ∧
      ∃ fs, extractStaticArchive reader (zip.size tree.entries) (tree.entries.map some) =
        .ok fs := by
  have hpack : packEntry staticDir [] tree.listing = .ok tree.entries :=
    packEntry_ok staticDir tree.regular []
  rw [packStaticZip, hpack]
  dsimp only [bind, Except.bind, pure, Except.pure]
  cases extractStaticArchive reader (zip.size tree.entries) (tree.entries.map some) with
  | error err =>
    constructor
    · nofun
    · rintro ⟨-, fs, h⟩
      cases h
  | ok fs =>
    constructor
    · intro h
      cases h
      exact ⟨rfl, fs, rfl⟩
    · rintro ⟨rfl, -⟩
      rfl

theorem publishable (hutf8 : tree.Utf8) (hadmitted : tree.Admitted) {limit : ℕ}
    (hroom : tree.listing.total ≤ limit) :
    Publishable limit (tree.entries.map some) ∧ NoFileAbove (tree.entries.map some) := by
  have hnamed : ∀ x ∈ tree.flat, IsNamed x.1 := fun _ hx => tree.isNamed hutf8 hx
  have hok : Placeable tree.flat := by
    intro x hx
    obtain ⟨ps, hps⟩ := zipPathParts_of_admitted (hnamed x hx) (hadmitted x hx)
    rw [outputPath_entryOf (hnamed x hx), hps]
    exact ⟨_, rfl⟩
  have hitems := items_entries hutf8 hok
  have hpairs := pairwise_items hutf8
  rw [← hitems] at hpairs
  have hsum : (tree.flat.map weightOf).sum = tree.listing.total := sum_weightOf tree.listing []
  refine ⟨⟨?_, ?_, ?_⟩, ?_⟩
  · apply (sound_packed hnamed (Nat.zero_le _)).mpr
    rw [hsum, Nat.zero_add]
    exact ⟨hok, hroom⟩
  · rw [List.Nodup, List.pairwise_map]
    apply List.Pairwise.imp_of_mem _ hpairs
    intro x y hx hy hxy hsame
    obtain ⟨hx, hxs⟩ := items_names hx
    obtain ⟨hy, hys⟩ := items_names hy
    exact hxy.1 (joined_inj hxs hys hx hy hsame)
  · obtain ⟨content, hindex⟩ := tree.index
    have hname : display (bytes "index.html".toList) = "index.html" := by
      rw [display, lossy_bytes, String.ofList_toList]
    rw [hitems, List.any_map, List.any_eq_true]
    refine ⟨_, hindex, ?_⟩
    have hjoined : joined ["index.html"] = "index.html" := by decide
    rw [Function.comp_apply, isIndex, List.map_singleton, hname, hjoined]
    rfl
  · intro x hx y hy hfile hpre
    by_contra hne
    have hxy : x ≠ y := fun hsame => hne (hsame ▸ rfl)
    have hcompatible : (items (tree.entries.map some)).Pairwise Unpack.Compatible :=
      hpairs.imp And.right
    exact (hcompatible.forall hx hy hxy).1 ⟨hfile, hpre⟩

/-- A tree with UTF-8 names that is packed is unpacked as it was, and one whose names are admitted
is packed exactly when it is at most twenty times as large as its archive. -/
theorem packStaticZip_roundTrip (hutf8 : tree.Utf8) :
    (∀ entries, packStaticZip zip reader staticDir tree.listing = .ok entries →
      ∃ fs, extractStaticArchive reader (zip.size entries) (entries.map some) = .ok fs ∧
        Recreates fs tree.listing) ∧
    (tree.Admitted → ((∃ entries, packStaticZip zip reader staticDir tree.listing = .ok entries) ↔
      tree.listing.total ≤ zip.size tree.entries*20)) := by
  constructor
  · intro entries hpack
    obtain ⟨rfl, fs, hfs⟩ := (packStaticZip_ok_iff zip reader staticDir).mp hpack
    exact ⟨fs, hfs, recreates hutf8 hfs⟩
  · intro hadmitted
    have hiff : (∃ entries, packStaticZip zip reader staticDir tree.listing = .ok entries) ↔
        ∃ fs, extractStaticArchive reader (zip.size tree.entries) (tree.entries.map some) =
          .ok fs := by
      constructor
      · rintro ⟨entries, hpack⟩
        exact ((packStaticZip_ok_iff zip reader staticDir).mp hpack).2
      · intro hfs
        exact ⟨tree.entries, (packStaticZip_ok_iff zip reader staticDir).mpr ⟨rfl, hfs⟩⟩
    rw [hiff]
    constructor
    · rintro ⟨fs, hfs⟩
      have hsound := (extractStaticArchive_placed hfs).1
      have hroom := ((sound_packed (fun _ hx => tree.isNamed hutf8 hx)
        (Nat.zero_le _)).mp hsound).2
      have hsum : (tree.flat.map weightOf).sum = tree.listing.total := sum_weightOf tree.listing []
      rw [hsum, Nat.zero_add, staticLimit] at hroom
      exact hroom.trans (Nat.min_le_left _ _)
    · intro hroom
      apply (extractStaticArchive_ok_iff reader _ _).mpr
      exact publishable hutf8 hadmitted (Nat.le_min.mpr ⟨hroom, tree.fits⟩)

instance (name : Bytes) : Decidable (IsFileName name) :=
  inferInstanceAs (Decidable (name ≠ [] ∧ slash ∉ name ∧ 0 ∉ name ∧ name ≠ bytes ".".toList ∧
    name ≠ bytes "..".toList))

theorem admitted_iff {name : Bytes} : Admitted name ↔ (zipPathParts (display name)).isOk := by
  rw [Admitted]
  cases zipPathParts (display name) with
  | error reason =>
    constructor
    · rintro ⟨ps, h⟩
      cases h
    · nofun
  | ok ps =>
    exact ⟨fun _ => rfl, fun _ => ⟨ps, rfl⟩⟩

instance (name : Bytes) : Decidable (Admitted name) := decidable_of_iff _ admitted_iff.symm

def hundredth : Zip := ⟨fun entries => (entries.map fun e => 128 + e.content.length/100).sum⟩

def page : Tree where
  listing := .file (bytes "index.html".toList) [1, 2] (.dir [0x61] (.file [0x62] [3] .nil) .nil)
  regular := by
    simp only [Listing.Regular]
    decide +kernel
  index := ⟨[1, 2], List.mem_cons_self ..⟩
  fits := by decide +kernel

theorem packStaticZip_roundTrip_page :
    ∃ entries, packStaticZip hundredth wholeReader [] page.listing = .ok entries ∧
      ∃ fs, extractStaticArchive wholeReader (hundredth.size entries) (entries.map some) = .ok fs ∧
        Recreates fs page.listing := by
  have hutf8 : page.Utf8 := by
    rw [Tree.Utf8]
    decide +kernel
  have hadmitted : page.Admitted := by
    rw [Tree.Admitted]
    decide +kernel
  obtain ⟨hagain, hpacked⟩ := packStaticZip_roundTrip hundredth wholeReader [] hutf8
  obtain ⟨entries, hok⟩ := (hpacked hadmitted).mpr (by decide +kernel)
  exact ⟨entries, hok, hagain entries hok⟩

def zeros : Tree where
  listing := .file (bytes "index.html".toList) (List.replicate 100000 0) .nil
  regular := by
    simp only [Listing.Regular]
    decide +kernel
  index := ⟨_, List.mem_cons_self ..⟩
  fits := by
    rw [Listing.total, List.length_replicate, Listing.total]
    decide

def latin : Tree where
  listing := .file (bytes "index.html".toList) [1, 2] (.file [0x61, 0xFF] [3] .nil)
  regular := by
    simp only [Listing.Regular]
    decide +kernel
  index := ⟨[1, 2], List.mem_cons_self ..⟩
  fits := by decide +kernel

/-- Names that are fine do not make the page of zeros be packed, and the file with the other name
comes back under a name of its own. -/
theorem not_packStaticZip_roundTrip :
    (zeros.Utf8 ∧ zeros.Admitted ∧
      ¬ ∃ entries, packStaticZip hundredth wholeReader [] zeros.listing = .ok entries) ∧
    ∃ entries, packStaticZip hundredth wholeReader [] latin.listing = .ok entries ∧
      ¬ ∃ fs, extractStaticArchive wholeReader (hundredth.size entries) (entries.map some) =
        .ok fs ∧ Recreates fs latin.listing := by
  have hnames : ∀ x ∈ zeros.flat, x.1 = [bytes "index.html".toList] := by
    intro x hx
    rw [List.mem_singleton.mp hx]
    rfl
  have hutf8 : zeros.Utf8 := by
    intro x hx name hname
    rw [hnames x hx, List.mem_singleton] at hname
    rw [hname]
    decide +kernel
  refine ⟨⟨hutf8, ?_, ?_⟩, ?_⟩
  · intro x hx name hname
    rw [hnames x hx, List.mem_singleton] at hname
    rw [hname]
    decide +kernel
  · rintro ⟨entries, hpack⟩
    obtain ⟨-, fs, hfs⟩ := (packStaticZip_ok_iff hundredth wholeReader []).mp hpack
    have hsound := (extractStaticArchive_placed hfs).1
    have hroom := ((sound_packed (fun _ hx => zeros.isNamed hutf8 hx) (Nat.zero_le _)).mp hsound).2
    -- the archive is 1128 bytes long, for a hundred thousand
    have hsize : hundredth.size zeros.entries = 1128 := by
      rw [hundredth, Tree.entries, Tree.flat, zeros]
      simp only [Listing.flat, List.map_cons, List.map_nil, entryOf, packedFile,
        List.length_replicate, List.sum_cons, List.sum_nil]
      rfl
    have hsum : (zeros.flat.map weightOf).sum = 100000 := by
      rw [Tree.flat, sum_weightOf, zeros, Listing.total, List.length_replicate, Listing.total]
    rw [hsum, hsize, staticLimit] at hroom
    exact absurd hroom (by decide)
  · have hok : (packStaticZip hundredth wholeReader [] latin.listing).isOk = true := by
      decide +kernel
    cases hpack : packStaticZip hundredth wholeReader [] latin.listing with
    | error err =>
      rw [hpack] at hok
      cases hok
    | ok entries =>
      refine ⟨entries, rfl, ?_⟩
      rintro ⟨fs, -, hagain⟩
      have hmem : (([[0x61, 0xFF]], some [3]) : BytePath × Option Bytes) ∈ latin.flat :=
        List.mem_cons_of_mem _ (List.mem_cons_self ..)
      obtain ⟨q, hq, -⟩ := (hagain.file _ _).mpr hmem
      obtain ⟨name, -, hbytes⟩ := List.map_eq_singleton_iff.mp hq
      have hno : ¬ IsUtf8 [0x61, 0xFF] := by decide +kernel
      exact hno (Utf8.isUtf8_iff.mpr ⟨_, hbytes⟩)

end Pack

end LandscapeKit.Publish.Pack
