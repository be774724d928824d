import LandscapeKit.LkbContainer

/-!
The three readers see the same header and the same JSON. They differ in the length they ask
for and in whether they look at the padding and at the archive, and that is all they can
disagree on.
-/

namespace LandscapeKit.Lkb

open Bytes Formats

section Rules

variable {α β : Type}

@[simp]
theorem bind_eq_ok {r : Read α} {k : α → Read β} {b : β} :
    r >>= k = .ok b ↔ ∃ a, r = .ok a ∧ k a = .ok b := by
  cases r with
  | error f => exact ⟨nofun, nofun⟩
  | ok a =>
    refine ⟨fun h => ⟨a, rfl, h⟩, ?_⟩
    rintro ⟨a', ha, h⟩
    rw [Except.ok.inj ha]
    exact h

@[simp]
theorem pure_eq_ok {a b : α} : (pure a : Read α) = .ok b ↔ a = b := by
  simp [pure, Except.pure]

@[simp]
theorem ensure_eq_ok {c : Prop} [Decidable c] {reason : String} {u : Unit} :
    ensure c reason = .ok u ↔ c := by
  unfold ensure
  split <;> simp_all [invalid]

@[simp]
theorem range_eq_ok {xs ys : List α} {i j : ℕ} :
    range xs i j = .ok ys ↔ (i ≤ j ∧ j ≤ xs.length) ∧ (xs.drop i).take (j - i) = ys := by
  unfold range
  split <;> simp_all

@[simp]
theorem readExact_eq_ok {n : ℕ} {stream : Bytes} {reason : String} {out : Bytes × Bytes} :
    readExact n stream reason = .ok out ↔ n ≤ stream.length ∧ (stream.take n, stream.drop n) = out := by
  unfold readExact
  split <;> simp_all [invalid]

/-- The reader answered, with metadata or with an error, and did not index out of range. -/
def Answers (r : Read α) : Prop := r ≠ .error .outOfRange

namespace Answers

theorem ok (a : α) : Answers (.ok a : Read α) := nofun

theorem invalid (reason : String) : Answers (Lkb.invalid reason : Read α) := by
  simp [Answers, Lkb.invalid]

theorem bind {r : Read α} {k : α → Read β} (hr : Answers r)
    (hk : ∀ a, r = .ok a → Answers (k a)) : Answers (r >>= k) := by
  cases r with
  | error f =>
    intro h
    exact hr (congrArg Except.error (Except.error.inj h))
  | ok a => exact hk a rfl

theorem ensure (c : Prop) [Decidable c] (reason : String) : Answers (Lkb.ensure c reason) := by
  unfold Lkb.ensure
  split
  · exact ok ()
  · exact invalid reason

theorem range {xs : List α} {i j : ℕ} (hij : i ≤ j) (hj : j ≤ xs.length) :
    Answers (Lkb.range xs i j) := by
  unfold Lkb.range
  rw [if_pos ⟨hij, hj⟩]
  exact ok _

theorem readExact (n : ℕ) (stream : Bytes) (reason : String) :
    Answers (Formats.readExact n stream reason) := by
  unfold Formats.readExact
  split
  · exact ok _
  · exact invalid reason

end Answers

end Rules

/-! The header. -/

def jsonLen (b : Bytes) : ℕ := leNat ((b.drop 6).take 4)

def json (b : Bytes) : Bytes := (b.drop headerLen).take (jsonLen b)

/-- Everything from the end of the JSON up to 1 MiB is zero. -/
def ZeroPadded (b : Bytes) : Prop :=
  ∀ i, headerLen + jsonLen b ≤ i → i < metadataCapacity → b[i]? = some 0

/-- The headers the parser accepts. -/
structure GoodHeader (b : Bytes) : Prop where
  lead : b.take 4 = magic
  version : leNat ((b.drop 4).take 2) = 1
  pos : jsonLen b ≠ 0
  fits : jsonLen b ≤ metadataCapacity - headerLen
  reserved : ∀ x ∈ (b.drop 10).take (headerLen - 10), x = 0

theorem jsonLen_take (b : Bytes) : jsonLen (b.take headerLen) = jsonLen b := by
  simp [jsonLen, headerLen, List.drop_take, List.take_take]

theorem goodHeader_take (b : Bytes) : GoodHeader (b.take headerLen) ↔ GoodHeader b := by
  constructor
  · intro h
    refine ⟨?_, ?_, jsonLen_take b ▸ h.pos, jsonLen_take b ▸ h.fits, ?_⟩
    · simpa [headerLen, List.take_take] using h.lead
    · simpa [headerLen, List.drop_take, List.take_take] using h.version
    · simpa only [headerLen, List.drop_take, List.take_take, min_self] using h.reserved
  · intro h
    refine ⟨?_, ?_, (jsonLen_take b).symm ▸ h.pos, (jsonLen_take b).symm ▸ h.fits, ?_⟩
    · simpa [headerLen, List.take_take] using h.lead
    · simpa [headerLen, List.drop_take, List.take_take] using h.version
    · simpa only [headerLen, List.drop_take, List.take_take, min_self] using h.reserved

theorem headerJsonLen_eq_ok {header : Bytes} {n : ℕ} (hlen : header.length = headerLen) :
    headerJsonLen header = .ok n ↔ GoodHeader header ∧ jsonLen header = n := by
  have h32 : header.length = 32 := hlen
  have htail : (header.drop 10).take (headerLen - 10) = header.drop 10 := by
    apply List.take_of_length_le
    simp [h32, headerLen]
  simp only [headerJsonLen, bind_eq_ok, range_eq_ok, ensure_eq_ok, pure_eq_ok, jsonLen]
  constructor
  · rintro ⟨_, ⟨-, rfl⟩, -, h1, _, ⟨-, rfl⟩, -, h2, _, ⟨-, rfl⟩, -, h3, -, h4, _, ⟨-, rfl⟩, -, h5, rfl⟩
    rw [List.take_of_length_le (by simp)] at h5
    exact ⟨⟨by simpa using h1, h2, h3, h4, htail.symm ▸ h5⟩, rfl⟩
  · rintro ⟨g, rfl⟩
    refine ⟨_, ⟨by omega, rfl⟩, (), by simpa using g.lead, _, ⟨by omega, rfl⟩, (), g.version, _,
      ⟨by omega, rfl⟩, (), g.pos, (), g.fits, _, ⟨by omega, rfl⟩, (), ?_, rfl⟩
    rw [List.take_of_length_le (by simp)]
    exact htail ▸ g.reserved

theorem headerJsonLen_answers {header : Bytes} (hlen : header.length = headerLen) :
    Answers (headerJsonLen header) := by
  have h32 : header.length = 32 := hlen
  refine .bind (.range (by omega) (by omega)) fun _ _ => ?_
  refine .bind (.ensure _ _) fun _ _ => ?_
  refine .bind (.range (by omega) (by omega)) fun _ _ => ?_
  refine .bind (.ensure _ _) fun _ _ => ?_
  refine .bind (.range (by omega) (by omega)) fun _ _ => ?_
  refine .bind (.ensure _ _) fun _ _ => ?_
  refine .bind (.ensure _ _) fun _ _ => ?_
  refine .bind (.range (by omega) le_rfl) fun _ _ => ?_
  exact .bind (.ensure _ _) fun _ _ => .ok _

theorem validateLkbHeader_eq_ok {b : Bytes} {n : ℕ} (hlen : metadataCapacity ≤ b.length) :
    validateLkbHeader b = .ok n ↔ GoodHeader b ∧ ZeroPadded b ∧ jsonLen b = n := by
  have hcap : headerLen ≤ metadataCapacity := by decide
  have htake : (b.take headerLen).length = headerLen := by
    simp only [List.length_take]
    omega
  have hpad (k : ℕ) (hk : k ≤ metadataCapacity) :
      (∀ x ∈ (b.drop k).take (metadataCapacity - k), x = 0) ↔
        ∀ i, k ≤ i → i < metadataCapacity → b[i]? = some 0 := by
    constructor
    · intro h i hi hlt
      have hib : i < b.length := lt_of_lt_of_le hlt hlen
      rw [List.getElem?_eq_getElem hib, h b[i] ?_]
      refine List.mem_iff_getElem?.mpr ⟨i - k, ?_⟩
      rw [List.getElem?_take_of_lt (by omega), List.getElem?_drop, Nat.add_sub_cancel' hi,
        List.getElem?_eq_getElem hib]
    · intro h x hx
      obtain ⟨i, hi⟩ := List.mem_iff_getElem?.mp hx
      have hlt : i < metadataCapacity - k := by
        have hsize := (List.getElem?_eq_some_iff.mp hi).1
        rw [List.length_take] at hsize
        omega
      rw [List.getElem?_take_of_lt hlt, List.getElem?_drop] at hi
      exact Option.some.inj (hi.symm.trans (h (k + i) (by omega) (by omega)))
  simp only [validateLkbHeader, bind_eq_ok, range_eq_ok, ensure_eq_ok, pure_eq_ok]
  constructor
  · rintro ⟨_, ⟨-, rfl⟩, k, hk, _, ⟨-, rfl⟩, -, hz, rfl⟩
    rw [List.drop_zero, Nat.sub_zero, headerJsonLen_eq_ok htake, goodHeader_take, jsonLen_take] at hk
    obtain ⟨g, rfl⟩ := hk
    have hfits := g.fits
    exact ⟨g, (hpad _ (by omega)).mp hz, rfl⟩
  · rintro ⟨g, hz, rfl⟩
    have hfits := g.fits
    refine ⟨_, ⟨by omega, rfl⟩, jsonLen b, ?_, _, ⟨by omega, rfl⟩, (), (hpad _ (by omega)).mpr hz, rfl⟩
    rw [List.drop_zero, Nat.sub_zero, headerJsonLen_eq_ok htake, goodHeader_take, jsonLen_take]
    exact ⟨g, rfl⟩

/-! The three readers. -/

section Readers

variable (F : Formats) {b : Bytes} {m : Metadata}

theorem json_fits (hlen : metadataCapacity ≤ b.length) (g : GoodHeader b) :
    headerLen + jsonLen b ≤ b.length := by
  have hcap : headerLen ≤ metadataCapacity := by decide
  have hfits := g.fits
  omega

theorem readBackupMetadata_eq_ok :
    F.readBackupMetadata b = .ok m ↔ metadataCapacity ≤ b.length ∧ GoodHeader b ∧ ZeroPadded b ∧
      F.parseMetadataJson (json b) = .ok m := by
  simp only [readBackupMetadata, bind_eq_ok, range_eq_ok, ensure_eq_ok]
  constructor
  · rintro ⟨-, hlen, n, hn, _, ⟨-, rfl⟩, hm⟩
    obtain ⟨g, hz, rfl⟩ := (validateLkbHeader_eq_ok hlen).mp hn
    rw [Nat.add_sub_cancel_left] at hm
    exact ⟨hlen, g, hz, hm⟩
  · rintro ⟨hlen, g, hz, hm⟩
    refine ⟨(), hlen, jsonLen b, (validateLkbHeader_eq_ok hlen).mpr ⟨g, hz, rfl⟩, json b, ?_, hm⟩
    rw [Nat.add_sub_cancel_left]
    exact ⟨⟨Nat.le_add_right .., json_fits hlen g⟩, rfl⟩

theorem readBackupMetadataStreamed_eq_ok :
    F.readBackupMetadataStreamed b b.length = .ok m ↔ minLen < b.length ∧ GoodHeader b ∧
      F.parseMetadataJson (json b) = .ok m := by
  have hcap : headerLen ≤ metadataCapacity ∧ metadataCapacity ≤ minLen := by decide
  simp only [readBackupMetadataStreamed, bind_eq_ok, readExact_eq_ok, ensure_eq_ok]
  constructor
  · rintro ⟨-, hlen, _, ⟨-, rfl⟩, n, hn, _, ⟨-, rfl⟩, hm⟩
    rw [headerJsonLen_eq_ok (List.length_take_of_le (by omega)), goodHeader_take, jsonLen_take] at hn
    obtain ⟨g, rfl⟩ := hn
    exact ⟨hlen, g, hm⟩
  · rintro ⟨hlen, g, hm⟩
    have hfits := json_fits (by omega) g
    refine ⟨(), hlen, _, ⟨by omega, rfl⟩, jsonLen b, ?_, _, ⟨?_, rfl⟩, hm⟩
    · rw [headerJsonLen_eq_ok (List.length_take_of_le (by omega)), goodHeader_take, jsonLen_take]
      exact ⟨g, rfl⟩
    · simp only [List.length_drop]
      omega

theorem checkArchive_eq_ok {metadata : Metadata} {archive : Bytes} :
    F.checkArchive metadata archive = .ok m ↔
      metadata.checksum = "sha256:".toList ++ hex (F.sha256 archive) ∧ metadata = m := by
  unfold checkArchive
  cases hs : Text.stripLead "sha256:".toList metadata.checksum with
  | none =>
    simp only [invalid, reduceCtorEq, false_iff, not_and]
    intro h
    rw [h, Text.stripLead_append] at hs
    cases hs
  | some expected =>
    simp only [bind_eq_ok, ensure_eq_ok, pure_eq_ok, exists_const]
    have hsplit := Text.eq_of_stripLead hs
    rw [hsplit, List.append_cancel_left_eq]
    exact and_congr_left fun _ => eq_comm

theorem verifyLkb_eq_ok :
    F.verifyLkb b = .ok m ↔ minLen < b.length ∧ GoodHeader b ∧ ZeroPadded b ∧
      F.parseMetadataJson (json b) = .ok m ∧
      m.checksum = "sha256:".toList ++ hex (F.sha256 (b.drop metadataCapacity)) := by
  have hcap : metadataCapacity ≤ minLen := by decide
  simp only [verifyLkb, bind_eq_ok, range_eq_ok, ensure_eq_ok, checkArchive_eq_ok]
  constructor
  · rintro ⟨-, hlen, n, hn, _, ⟨-, rfl⟩, m', hm, _, ⟨-, rfl⟩, hsum, rfl⟩
    obtain ⟨g, hz, rfl⟩ := (validateLkbHeader_eq_ok (by omega)).mp hn
    rw [Nat.add_sub_cancel_left] at hm
    rw [List.take_of_length_le (by simp)] at hsum
    exact ⟨hlen, g, hz, hm, hsum⟩
  · rintro ⟨hlen, g, hz, hm, hsum⟩
    refine ⟨(), hlen, jsonLen b, (validateLkbHeader_eq_ok (by omega)).mpr ⟨g, hz, rfl⟩, json b, ?_,
      m, hm, b.drop metadataCapacity, ⟨⟨by omega, le_rfl⟩, ?_⟩, hsum, rfl⟩
    · rw [Nat.add_sub_cancel_left]
      exact ⟨⟨Nat.le_add_right .., json_fits (by omega) g⟩, rfl⟩
    · exact List.take_of_length_le (by simp)

end Readers

/-! No reader indexes out of range. -/

section Answers

variable (F : Formats) (b : Bytes)

theorem DateTime.format_length (t : DateTime) : 9 ≤ t.format.length := by
  have hyear : 4 ≤ (DateTime.formatYear t.year).length := by
    unfold DateTime.formatYear
    split
    · exact Text.width_le_padded ..
    · have := Text.width_le_padded 4 t.year.natAbs
      rw [List.length_cons]
      omega
  have hmonth := Text.width_le_padded 2 t.month
  have hday := Text.width_le_padded 2 t.day
  simp only [DateTime.format, List.length_append, List.length_singleton]
  omega

theorem validBackupId_answers (value : Text) (t : DateTime) : Answers (validBackupId value t) := by
  have hlen := t.format_length
  unfold validBackupId
  split
  · exact .ok false
  · dsimp only
    split
    · refine .bind (.range (Nat.zero_le 8) (by omega)) fun _ _ => ?_
      split
      · exact .bind (.range hlen le_rfl) fun _ _ => .ok _
      · exact .ok false
    · exact .ok false

theorem validateMetadata_answers (m : Metadata) : Answers (F.validateMetadata m) := by
  refine .bind (.ensure _ _) fun _ _ => ?_
  refine .bind (.ensure _ _) fun _ _ => ?_
  refine .bind (.ensure _ _) fun _ _ => ?_
  refine .bind (.ensure _ _) fun _ _ => ?_
  refine .bind ?_ fun _ _ => .bind (validBackupId_answers _ _) fun _ _ => .ensure _ _
  unfold checkVersion
  split
  · exact .invalid _
  · exact .ok ()

theorem parseMetadataJson_answers (js : Bytes) : Answers (F.parseMetadataJson js) := by
  unfold parseMetadataJson
  split
  · exact .invalid _
  · exact .bind (validateMetadata_answers F _) fun _ _ => .ok _

variable {b}

theorem validateLkbHeader_answers (hlen : metadataCapacity ≤ b.length) :
    Answers (validateLkbHeader b) := by
  have hcap : headerLen ≤ metadataCapacity := by decide
  refine .bind (.range (Nat.zero_le _) (by omega)) fun header hh => ?_
  obtain ⟨-, rfl⟩ := range_eq_ok.mp hh
  have htake : ((b.drop 0).take (headerLen - 0)).length = headerLen := by
    rw [List.drop_zero, Nat.sub_zero, List.length_take]
    omega
  refine .bind (headerJsonLen_answers htake) fun n hn => ?_
  obtain ⟨g, rfl⟩ := (headerJsonLen_eq_ok htake).mp hn
  have hfits := g.fits
  exact .bind (.range (by omega) hlen) fun _ _ => .bind (.ensure _ _) fun _ _ => .ok _

theorem readBackupMetadata_answers : Answers (F.readBackupMetadata b) := by
  refine .bind (.ensure _ _) fun _ hc => ?_
  have hlen := ensure_eq_ok.mp hc
  refine .bind (validateLkbHeader_answers hlen) fun n hn => ?_
  obtain ⟨g, -, rfl⟩ := (validateLkbHeader_eq_ok hlen).mp hn
  exact .bind (.range (Nat.le_add_right ..) (json_fits hlen g)) fun _ _ =>
    parseMetadataJson_answers F _

theorem verifyLkb_answers : Answers (F.verifyLkb b) := by
  refine .bind (.ensure _ _) fun _ hc => ?_
  have hlen : metadataCapacity ≤ b.length :=
    ((show metadataCapacity ≤ minLen by decide).trans_lt (ensure_eq_ok.mp hc)).le
  refine .bind (validateLkbHeader_answers hlen) fun n hn => ?_
  obtain ⟨g, -, rfl⟩ := (validateLkbHeader_eq_ok hlen).mp hn
  refine .bind (.range (Nat.le_add_right ..) (json_fits hlen g)) fun _ _ => ?_
  refine .bind (parseMetadataJson_answers F _) fun _ _ => ?_
  refine .bind (.range hlen le_rfl) fun _ _ => ?_
  unfold checkArchive
  split
  · exact .invalid _
  · exact .bind (.ensure _ _) fun _ _ => .ok _

theorem readBackupMetadataStreamed_answers (n : ℕ) :
    Answers (F.readBackupMetadataStreamed b n) := by
  refine .bind (.ensure _ _) fun _ _ => ?_
  refine .bind (.readExact _ _ _) fun header hh => ?_
  obtain ⟨hlen, rfl⟩ := readExact_eq_ok.mp hh
  refine .bind (headerJsonLen_answers (List.length_take_of_le hlen)) fun n _ => ?_
  exact .bind (.readExact _ _ _) fun _ _ => parseMetadataJson_answers F _

end Answers

/-! What the writer lays out. -/

section Writer

variable {js : Bytes} (archive : Bytes)

theorem header_length (n : ℕ) : (header n).length = headerLen := by
  simp [header, magic, headerLen]

theorem container_length (h : js.length ≤ metadataCapacity - headerLen) :
    (container js archive).length = metadataCapacity + archive.length := by
  have hcap : headerLen ≤ metadataCapacity := by decide
  simp only [container, List.length_append, header_length, List.length_replicate]
  omega

theorem jsonLen_container (h : js.length ≤ metadataCapacity - headerLen) :
    jsonLen (container js archive) = js.length := by
  have hlt : js.length < 256^4 := lt_of_le_of_lt h (by decide)
  have hdrop : (container js archive).drop 6 = leBytes 4 js.length ++ (List.replicate 22 0 ++
      (js ++ (List.replicate (metadataCapacity - headerLen - js.length) 0 ++ archive))) := by
    simp only [container, header, List.append_assoc]
    rw [← List.append_assoc magic]
    exact List.drop_left' (by simp [magic])
  rw [jsonLen, hdrop, List.take_left' (leBytes_length ..), leNat_leBytes 4 _ hlt]

theorem drop_container :
    (container js archive).drop headerLen =
      js ++ (List.replicate (metadataCapacity - headerLen - js.length) 0 ++ archive) :=
  List.drop_left' (header_length _)

theorem json_container (h : js.length ≤ metadataCapacity - headerLen) :
    json (container js archive) = js := by
  rw [json, jsonLen_container archive h, drop_container, List.take_left' rfl]

theorem archive_container (h : js.length ≤ metadataCapacity - headerLen) :
    (container js archive).drop metadataCapacity = archive := by
  have hcap : headerLen ≤ metadataCapacity := by decide
  have hsplit : metadataCapacity =
      headerLen + (js.length + (metadataCapacity - headerLen - js.length)) := by omega
  rw [hsplit, ← List.drop_drop, drop_container, ← List.append_assoc]
  refine List.drop_left' ?_
  rw [List.length_append, List.length_replicate]

theorem goodHeader_container (hpos : js ≠ []) (h : js.length ≤ metadataCapacity - headerLen) :
    GoodHeader (container js archive) := by
  have hlen := jsonLen_container archive h
  refine ⟨?_, ?_, ?_, hlen ▸ h, ?_⟩
  · simp only [container, header, List.append_assoc]
    exact List.take_left' rfl
  · have hdrop : (container js archive).drop 4 = leBytes 2 1 ++ (leBytes 4 js.length ++
        (List.replicate 22 0 ++
          (js ++ (List.replicate (metadataCapacity - headerLen - js.length) 0 ++ archive)))) := by
      simp only [container, header, List.append_assoc]
      exact List.drop_left' rfl
    rw [hdrop, List.take_left' (leBytes_length ..)]
    exact leNat_leBytes 2 1 (by decide)
  · rw [hlen]
    exact fun h0 => hpos (List.length_eq_zero_iff.mp h0)
  · have hdrop : (container js archive).drop 10 = List.replicate 22 0 ++
        (js ++ (List.replicate (metadataCapacity - headerLen - js.length) 0 ++ archive)) := by
      simp only [container, header, List.append_assoc]
      rw [← List.append_assoc (leBytes 2 1), ← List.append_assoc magic]
      exact List.drop_left' (by simp [magic])
    rw [hdrop, List.take_left' (by simp [headerLen])]
    exact fun x hx => List.eq_of_mem_replicate hx

theorem zeroPadded_container (h : js.length ≤ metadataCapacity - headerLen) :
    ZeroPadded (container js archive) := by
  intro i hi hlt
  rw [jsonLen_container archive h] at hi
  have hsplit : i = headerLen + (js.length + (i - headerLen - js.length)) := by omega
  have hpad : i - headerLen - js.length < metadataCapacity - headerLen - js.length := by omega
  rw [hsplit, ← List.getElem?_drop, drop_container, ← List.getElem?_drop, List.drop_left' rfl,
    List.getElem?_append_left (by rwa [List.length_replicate]), List.getElem?_replicate, if_pos hpad]

end Writer

theorem toVec_ne_nil (F : Formats) {m : Metadata} (hm : F.fromSlice (F.toVec m) = .ok m) :
    F.toVec m ≠ [] := by
  intro hnil
  obtain ⟨e, he⟩ := F.fromSlice_nil
  rw [hnil, he] at hm
  cases hm

theorem parseMetadataJson_toVec (F : Formats) {m : Metadata}
    (hm : F.fromSlice (F.toVec m) = .ok m) (hv : F.validateMetadata m = .ok ()) :
    F.parseMetadataJson (F.toVec m) = .ok m := by
  simp [parseMetadataJson, hm, hv]

/-- All three readers return the metadata of a container. -/
def Accepted (F : Formats) (b : Bytes) (m : Metadata) : Prop :=
  F.verifyLkb b = .ok m ∧ F.readBackupMetadata b = .ok m ∧
    F.readBackupMetadataStreamed b b.length = .ok m

/-- A container that holds what its header says is accepted by all three readers exactly when
its archive has more than one byte: two of them ask for more than `minLen` bytes, which is
already one more than the 1 MiB they name. -/
theorem accepted_container_iff (F : Formats) {m : Metadata} {archive : Bytes}
    (hm : F.fromSlice (F.toVec m) = .ok m) (hv : F.validateMetadata m = .ok ())
    (hfit : (F.toVec m).length ≤ metadataCapacity - headerLen)
    (hsum : m.checksum = "sha256:".toList ++ hex (F.sha256 archive)) :
    Accepted F (container (F.toVec m) archive) m ↔ 1 < archive.length := by
  have hlen := container_length archive hfit
  have hmin : minLen = metadataCapacity + 1 := rfl
  have hg := goodHeader_container archive (toVec_ne_nil F hm) hfit
  have hz := zeroPadded_container archive hfit
  have hp : F.parseMetadataJson (json (container (F.toVec m) archive)) = .ok m := by
    rw [json_container archive hfit]
    exact parseMetadataJson_toVec F hm hv
  constructor
  · intro h
    have hver := ((verifyLkb_eq_ok F).mp h.1).1
    omega
  · intro h
    refine ⟨(verifyLkb_eq_ok F).mpr ⟨by omega, hg, hz, hp, ?_⟩,
      (readBackupMetadata_eq_ok F).mpr ⟨by omega, hg, hz, hp⟩,
      (readBackupMetadataStreamed_eq_ok F).mpr ⟨by omega, hg, hp⟩⟩
    rwa [archive_container archive hfit]

/-- The readers never index out of range, agree where they should, and accept every container
the writer lays out whose archive has more than one byte, and no other. -/
theorem readers_agree_with_writer (F : Formats) :
    (∀ b, Answers (F.verifyLkb b) ∧ Answers (F.readBackupMetadata b) ∧
      ∀ n, Answers (F.readBackupMetadataStreamed b n)) ∧
    (∀ b m, F.verifyLkb b = .ok m →
      F.readBackupMetadata b = .ok m ∧ F.readBackupMetadataStreamed b b.length = .ok m) ∧
    (∀ b m, minLen < b.length →
      (F.readBackupMetadata b = .ok m ↔
        F.readBackupMetadataStreamed b b.length = .ok m ∧ ZeroPadded b)) ∧
    (∀ m archive, F.fromSlice (F.toVec m) = .ok m → F.validateMetadata m = .ok () →
      (F.toVec m).length ≤ metadataCapacity - headerLen → archive ≠ [] →
      m.checksum = "sha256:".toList ++ hex (F.sha256 archive) →
      (Accepted F (container (F.toVec m) archive) m ↔ 1 < archive.length)) := by
  have hcap : metadataCapacity ≤ minLen := by decide
  refine ⟨fun b => ⟨verifyLkb_answers F, readBackupMetadata_answers F,
    readBackupMetadataStreamed_answers F⟩, ?_, ?_, ?_⟩
  · intro b m h
    obtain ⟨hlen, g, hz, hp, -⟩ := (verifyLkb_eq_ok F).mp h
    exact ⟨(readBackupMetadata_eq_ok F).mpr ⟨by omega, g, hz, hp⟩,
      (readBackupMetadataStreamed_eq_ok F).mpr ⟨hlen, g, hp⟩⟩
  · intro b m hlen
    rw [readBackupMetadata_eq_ok, readBackupMetadataStreamed_eq_ok]
    constructor
    · rintro ⟨-, g, hz, hp⟩
      exact ⟨⟨hlen, g, hp⟩, hz⟩
    · rintro ⟨⟨-, g, hp⟩, hz⟩
      exact ⟨by omega, g, hz, hp⟩
  · intro m archive hm hv hfit _ hsum
    exact accepted_container_iff F hm hv hfit hsum

/-! Two containers, with archives of one and of two bytes. -/

section Samples

def sampleDigest (archive : Bytes) : Bytes :=
  if archive = [0] then
    [110, 52, 11, 156, 255, 179, 122, 152, 156, 165, 68, 230, 187, 120, 10, 44,
      120, 144, 29, 63, 179, 55, 56, 118, 133, 17, 163, 6, 23, 175, 160, 29]
  else if archive = [31, 139] then
    [238, 152, 220, 106, 242, 122, 159, 28, 140, 196, 170, 162, 253, 5, 181, 246,
      231, 201, 143, 81, 57, 2, 83, 165, 38, 59, 13, 9, 108, 53, 16, 254]
  else []

def sampleMetadata (archive : Bytes) : Metadata where
  schemaVersion := 1
  backupId := "20240102-030405-0000abcd".toList
  createdAt := ⟨2024, 1, 2, 3, 4, 5, 0⟩
  landscapeVersion := "1.2.3".toList
  lkitVersion := "0.1.0".toList
  architecture := .x86_64
  hostname := "router".toList
  remark := []
  auto := true
  scope := .minimal
  contents := ⟨true, true, true, true, true⟩
  checksum := "sha256:".toList ++ hex (sampleDigest archive)

def sampleJson (checksum : Text) : Bytes :=
  ('\x7b' :: "\"schema_version\":1,\"backup_id\":\"20240102-030405-0000abcd\",".toList ++
    "\"created_at\":\"2024-01-02T03:04:05Z\",\"landscape_version\":\"1.2.3\",".toList ++
    "\"lkit_version\":\"0.1.0\",\"architecture\":\"x86_64\",\"hostname\":\"router\",".toList ++
    "\"remark\":\"\",\"auto\":true,\"scope\":\"minimal\",\"contents\":\x7b\"binary\":true,".toList ++
    "\"static\":true,\"static_archive\":true,\"init_config\":true,\"geo_cache\":true\x7d,".toList ++
    "\"checksum\":\"".toList ++ checksum ++ "\"\x7d".toList).map fun c => UInt8.ofNat c.toNat

theorem sampleJson_fits {checksum : Text} (h : checksum.length ≤ 100) :
    (sampleJson checksum).length ≤ metadataCapacity - headerLen := by
  unfold sampleJson
  repeat rewrite [String.toList_ofList]
  simp only [List.length_map, List.length_append, List.length_cons, List.length_nil,
    metadataCapacity, headerLen]
  omega

theorem sampleJson_ne_nil (checksum : Text) : [] ≠ sampleJson checksum :=
  (List.cons_ne_nil _ _).symm

/-- The other crates, for the metadata of one backup. -/
def sampleFormats (archive : Bytes) : Formats where
  fromSlice js :=
    if js = sampleJson (sampleMetadata archive).checksum then .ok (sampleMetadata archive)
    else .error "EOF while parsing a value at line 1 column 0"
  toVec m := sampleJson m.checksum
  sha256 := sampleDigest
  parseVersion value :=
    if value = "1.2.3".toList then .ok ⟨1, 2, 3, [], []⟩ else .error "unexpected character"
  fromSlice_nil := ⟨_, if_neg (sampleJson_ne_nil _)⟩

theorem sampleFormats_fromSlice (archive : Bytes) :
    (sampleFormats archive).fromSlice ((sampleFormats archive).toVec (sampleMetadata archive)) =
      .ok (sampleMetadata archive) := by
  simp only [sampleFormats, if_true]

theorem sampleMetadata_checksum (archive : Bytes) :
    (sampleMetadata archive).checksum =
      "sha256:".toList ++ hex ((sampleFormats archive).sha256 archive) := rfl

/-- Metadata that is valid and fits, for a non-empty archive whose checksum it records: the file
is longer than 1 MiB and `verify_lkb` refuses it. -/
theorem one_byte_archive_refused :
    (sampleFormats [0]).fromSlice ((sampleFormats [0]).toVec (sampleMetadata [0])) =
      .ok (sampleMetadata [0]) ∧
    (sampleFormats [0]).validateMetadata (sampleMetadata [0]) = .ok () ∧
    ((sampleFormats [0]).toVec (sampleMetadata [0])).length ≤ metadataCapacity - headerLen ∧
    (sampleMetadata [0]).checksum = "sha256:".toList ++ hex ((sampleFormats [0]).sha256 [0]) ∧
    metadataCapacity < (container ((sampleFormats [0]).toVec (sampleMetadata [0])) [0]).length ∧
    ¬ Accepted (sampleFormats [0]) (container ((sampleFormats [0]).toVec (sampleMetadata [0])) [0])
      (sampleMetadata [0]) := by
  have hm := sampleFormats_fromSlice [0]
  have hv : (sampleFormats [0]).validateMetadata (sampleMetadata [0]) = .ok () := by decide +kernel
  have hfit : ((sampleFormats [0]).toVec (sampleMetadata [0])).length ≤
      metadataCapacity - headerLen := sampleJson_fits (by decide +kernel)
  have hsum := sampleMetadata_checksum [0]
  have hlen := container_length [0] hfit
  refine ⟨hm, hv, hfit, hsum, ?_, ?_⟩
  · rw [hlen]
    exact Nat.lt_succ_self _
  · intro h
    exact lt_irrefl 1 ((accepted_container_iff (sampleFormats [0]) hm hv hfit hsum).mp h)

theorem sampleMetadata_valid :
    (sampleFormats [31, 139]).validateMetadata (sampleMetadata [31, 139]) = .ok () := by
  decide +kernel

theorem sampleMetadata_fits : ((sampleFormats [31, 139]).toVec (sampleMetadata [31, 139])).length ≤
    metadataCapacity - headerLen :=
  sampleJson_fits (by decide +kernel)

theorem two_byte_archive_accepted :
    Accepted (sampleFormats [31, 139])
      (container ((sampleFormats [31, 139]).toVec (sampleMetadata [31, 139])) [31, 139])
      (sampleMetadata [31, 139]) := by
  have hm := sampleFormats_fromSlice [31, 139]
  have hsum := sampleMetadata_checksum [31, 139]
  obtain ⟨-, -, -, hwriter⟩ := readers_agree_with_writer (sampleFormats [31, 139])
  have hiff := hwriter (sampleMetadata [31, 139]) [31, 139] hm sampleMetadata_valid
    sampleMetadata_fits (List.cons_ne_nil _ _) hsum
  exact hiff.mpr Nat.one_lt_two

end Samples

end LandscapeKit.Lkb
