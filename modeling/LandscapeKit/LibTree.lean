import Mathlib.Data.List.Nodup
import LandscapeKit.LibBytes
import LandscapeKit.LibPaths

/-!
Directory trees as `read_dir` shows them: every directory is a listing, in the order it is
read, and a name is text or bytes that are not UTF-8. `paths` lists what a tree holds.
-/

namespace LandscapeKit

inductive OsName
  | utf8 (name : String)
  | raw (bytes : Bytes)
deriving DecidableEq

namespace OsName

def Valid : OsName → Prop
  | utf8 name => IsName name ∧ '/' ∉ name.toList ∧ '\x00' ∉ name.toList
  | raw _ => True

end OsName

mutual

inductive Entry (κ : Type)
  | file (content : κ)
  | dir (listing : Listing κ)
  | symlink
  | other

inductive Listing (κ : Type)
  | nil
  | cons (name : OsName) (entry : Entry κ) (rest : Listing κ)

end

section

variable {κ : Type}

mutual

def Entry.paths (base : Path) : Entry κ → List (Path × Node κ)
  | .file content => [(base, .file content)]
  | .dir listing => (base, .dir) :: listing.paths base
  | .symlink => []
  | .other => []

def Listing.paths (base : Path) : Listing κ → List (Path × Node κ)
  | .nil => []
  | .cons (.utf8 name) entry rest => entry.paths (base ++ [name]) ++ rest.paths base
  | .cons (.raw _) _ rest => rest.paths base

end

def Listing.dirs : Listing κ → ℕ
  | .nil => 0
  | .cons _ (.dir listing) rest => listing.dirs + 1 + rest.dirs
  | .cons _ _ rest => rest.dirs

def Listing.names : Listing κ → List OsName
  | .nil => []
  | .cons name _ rest => name :: rest.names

mutual

def Entry.WellFormed : Entry κ → Prop
  | .dir listing => listing.WellFormed
  | _ => True

def Listing.WellFormed : Listing κ → Prop
  | .nil => True
  | .cons name entry rest =>
    name.Valid ∧ name ∉ rest.names ∧ entry.WellFormed ∧ rest.WellFormed

end

mutual

theorem Entry.base_prefix {base : Path} {p : Path} {n : Node κ} :
    ∀ {entry : Entry κ}, (p, n) ∈ entry.paths base → base <+: p
  | .file _, h => by
    simp only [Entry.paths, List.mem_singleton, Prod.mk.injEq] at h
    exact h.1 ▸ List.prefix_rfl
  | .dir listing, h => by
    simp only [Entry.paths, List.mem_cons, Prod.mk.injEq] at h
    rcases h with ⟨rfl, -⟩ | h
    · exact List.prefix_rfl
    · obtain ⟨name, -, hp⟩ := Listing.name_prefix h
      exact (List.prefix_append ..).trans hp
  | .symlink, h => by simp [Entry.paths] at h
  | .other, h => by simp [Entry.paths] at h

theorem Listing.name_prefix {base : Path} {p : Path} {n : Node κ} :
    ∀ {listing : Listing κ}, (p, n) ∈ listing.paths base →
      ∃ name, OsName.utf8 name ∈ listing.names ∧ base ++ [name] <+: p
  | .nil, h => by simp [Listing.paths] at h
  | .cons (.utf8 name) entry rest, h => by
    simp only [Listing.paths, List.mem_append] at h
    rcases h with h | h
    · exact ⟨name, List.mem_cons_self .., Entry.base_prefix h⟩
    · obtain ⟨name', hmem, hp⟩ := Listing.name_prefix h
      exact ⟨name', List.mem_cons_of_mem _ hmem, hp⟩
  | .cons (.raw _) entry rest, h => by
    simp only [Listing.paths] at h
    obtain ⟨name', hmem, hp⟩ := Listing.name_prefix h
    exact ⟨name', List.mem_cons_of_mem _ hmem, hp⟩

end

mutual

theorem Entry.nodup_paths {base : Path} :
    ∀ {entry : Entry κ}, entry.WellFormed → ((entry.paths base).map Prod.fst).Nodup
  | .file _, _ => by simp [Entry.paths]
  | .dir listing, h => by
    simp only [Entry.paths, List.map_cons, List.nodup_cons]
    refine ⟨fun hmem => ?_, Listing.nodup_paths h⟩
    obtain ⟨⟨p, n⟩, hp, rfl⟩ := List.mem_map.mp hmem
    obtain ⟨name, -, hpre⟩ := Listing.name_prefix hp
    have hlen := hpre.length_le
    simp at hlen
  | .symlink, _ => by simp [Entry.paths]
  | .other, _ => by simp [Entry.paths]

theorem Listing.nodup_paths {base : Path} :
    ∀ {listing : Listing κ}, listing.WellFormed → ((listing.paths base).map Prod.fst).Nodup
  | .nil, _ => by simp [Listing.paths]
  | .cons (.utf8 name) entry rest, ⟨_, hnot, he, hr⟩ => by
    simp only [Listing.paths, List.map_append]
    refine List.nodup_append.mpr ⟨Entry.nodup_paths he, Listing.nodup_paths hr, ?_⟩
    intro p hp q hq hpq
    obtain ⟨⟨p', n⟩, hp', rfl⟩ := List.mem_map.mp hp
    obtain ⟨⟨q', m⟩, hq', rfl⟩ := List.mem_map.mp hq
    have hpq' : p' = q' := hpq
    obtain ⟨name', hmem, hpre⟩ := Listing.name_prefix hq'
    -- both names stand at the same place of one path
    have hsame := List.prefix_of_prefix_length_le (Entry.base_prefix hp') (hpq' ▸ hpre) (by simp)
    have heq := hsame.eq_of_length (by simp)
    have hname : name = name' := by simpa using heq
    exact hnot (hname ▸ hmem)
  | .cons (.raw _) entry rest, ⟨_, _, _, hr⟩ => by
    simp only [Listing.paths]
    exact Listing.nodup_paths hr

end

mutual

theorem Entry.parents_listed {base q p : Path} {n : Node κ} :
    ∀ {entry : Entry κ}, (p, n) ∈ entry.paths base → base <+: q → q <+: p → q ≠ p →
      (q, .dir) ∈ entry.paths base
  | .file _, h, hb, hq, hne => by
    simp only [Entry.paths, List.mem_singleton, Prod.mk.injEq] at h
    obtain ⟨rfl, -⟩ := h
    exact absurd (hq.eq_of_length_le hb.length_le) hne
  | .dir listing, h, hb, hq, hne => by
    simp only [Entry.paths, List.mem_cons, Prod.mk.injEq] at h ⊢
    by_cases hbase : q = base
    · exact .inl ⟨hbase, trivial⟩
    · rcases h with ⟨rfl, -⟩ | h
      · exact absurd (hq.eq_of_length_le hb.length_le) hne
      · exact .inr (Listing.parents_listed h hb hbase hq hne)
  | .symlink, h, _, _, _ => by simp [Entry.paths] at h
  | .other, h, _, _, _ => by simp [Entry.paths] at h

theorem Listing.parents_listed {base q p : Path} {n : Node κ} :
    ∀ {listing : Listing κ}, (p, n) ∈ listing.paths base → base <+: q → q ≠ base → q <+: p →
      q ≠ p → (q, .dir) ∈ listing.paths base
  | .nil, h, _, _, _, _ => by simp [Listing.paths] at h
  | .cons (.utf8 name) entry rest, h, hb, hbase, hq, hne => by
    simp only [Listing.paths, List.mem_append] at h ⊢
    rcases h with h | h
    · refine .inl (Entry.parents_listed h ?_ hq hne)
      refine List.prefix_of_prefix_length_le (Entry.base_prefix h) hq ?_
      have hlen := hb.length_le
      have hlt : base.length ≠ q.length := fun he => hbase (hb.eq_of_length he).symm
      simp
      omega
    · exact .inr (Listing.parents_listed h hb hbase hq hne)
  | .cons (.raw _) entry rest, h, hb, hbase, hq, hne => by
    simp only [Listing.paths] at h ⊢
    exact Listing.parents_listed h hb hbase hq hne

end

mutual

theorem Entry.paths_append (base q : Path) :
    ∀ entry : Entry κ, entry.paths (base ++ q) = (entry.paths q).map fun x => (base ++ x.1, x.2)
  | .file _ => rfl
  | .dir listing => by simp [Entry.paths, Listing.paths_append base q listing]
  | .symlink => rfl
  | .other => rfl

theorem Listing.paths_append (base q : Path) :
    ∀ listing : Listing κ,
      listing.paths (base ++ q) = (listing.paths q).map fun x => (base ++ x.1, x.2)
  | .nil => rfl
  | .cons (.utf8 name) entry rest => by
    simp [Listing.paths, Listing.paths_append base q rest, Entry.paths_append base _ entry]
  | .cons (.raw _) _ rest => by simp [Listing.paths, Listing.paths_append base q rest]

end

theorem Listing.paths_eq_map (base : Path) (listing : Listing κ) :
    listing.paths base = (listing.paths []).map fun x => (base ++ x.1, x.2) := by
  have h := Listing.paths_append base [] listing
  rwa [List.append_nil] at h

mutual

theorem Entry.names_valid {base p : Path} {n : Node κ} :
    ∀ {entry : Entry κ}, entry.WellFormed → (p, n) ∈ entry.paths base →
      ∀ part ∈ p.drop base.length, (OsName.utf8 part).Valid
  | .file _, _, h => by
    simp only [Entry.paths, List.mem_singleton, Prod.mk.injEq] at h
    simp [h.1]
  | .dir listing, hw, h => by
    simp only [Entry.paths, List.mem_cons, Prod.mk.injEq] at h
    rcases h with ⟨rfl, -⟩ | h
    · simp
    · exact Listing.names_valid hw h
  | .symlink, _, h => by simp [Entry.paths] at h
  | .other, _, h => by simp [Entry.paths] at h

theorem Listing.names_valid {base p : Path} {n : Node κ} :
    ∀ {listing : Listing κ}, listing.WellFormed → (p, n) ∈ listing.paths base →
      ∀ part ∈ p.drop base.length, (OsName.utf8 part).Valid
  | .nil, _, h => by simp [Listing.paths] at h
  | .cons (.utf8 name) entry rest, ⟨hv, _, he, hr⟩, h => by
    simp only [Listing.paths, List.mem_append] at h
    rcases h with h | h
    · obtain ⟨tail, rfl⟩ := Entry.base_prefix h
      intro part hpart
      rw [List.append_assoc, List.drop_left' rfl, List.singleton_append, List.mem_cons] at hpart
      rcases hpart with rfl | hpart
      · exact hv
      · exact Entry.names_valid he h part (by rwa [List.drop_left' rfl])
    · exact Listing.names_valid hr h
  | .cons (.raw _) entry rest, ⟨_, _, _, hr⟩, h => by
    simp only [Listing.paths] at h
    exact Listing.names_valid hr h

end

end

end LandscapeKit
