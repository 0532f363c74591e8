import Mathlib.Algebra.Order.BigOperators.Group.List
import Mathlib.Algebra.Order.Group.Nat
import Mathlib.Data.List.Permutation
import Adapta.Adapters.Import

/-!
# How far a zip expands

The sizes that the headers of a zip declare are checked together, and the bytes of each member
are counted again while they are copied.  A stream stops at its declared size, so the bytes that
`_store_peft` writes stay within the cap for an adapter, whichever calls fail meanwhile.
-/

namespace Adapta.Adapters.Import

open Lib Effect Api

/-! ## Statement -/

/-- The size of a file, none if there is no file. -/
def fileLength (x : Option Bytes) : Nat := (x.getD []).length

/-- The bytes that are below `peft`. -/
def Dir.extracted (d : Dir) : Nat := fileLength (Dir.get d .config) + fileLength (Dir.get d .weights)

/-- The bytes that the stream of a member has. -/
def contentSize {ε : Type} (src : Except ε Stream) : Nat :=
  match src with
  | .error _ => 0
  | .ok st => st.content.length

/-- The real contents of the members together. -/
def realSize (readers : Readers) (upload : Bytes) : Nat :=
  match readers.members upload with
  | none => 0
  | some infos => (infos.map fun m ↦ contentSize m.stream).sum

/-- `_store_peft` writes no more than the cap.  If the members have more, `validate_and_store`
raises and removes the directory. -/
structure ExpansionCapped (calls : StoreCall → Outcome) (readers : Readers) (maxMb : Nat)
    (catalog : List Base) (filename baseModel : String) (upload : Bytes) : Prop where
  written : ∀ entry,
    Dir.extracted ((storePeft calls readers maxMb entry) (some (.ofUpload upload))).2 ≤
      maxMb * mebibyte
  rejected : maxMb * mebibyte < realSize readers upload → ∃ e,
    ((validateAndStore calls readers maxMb catalog filename baseModel)
      (some (.ofUpload upload))).1 = .error e
  removed : maxMb * mebibyte < realSize readers upload →
    (resolveBase catalog baseModel).isSome → calls .rmtree ≠ .fails →
    ((validateAndStore calls readers maxMb catalog filename baseModel)
      (some (.ofUpload upload))).2 = none
  /-- A base that is none of the catalog is refused before the upload is looked at. -/
  untouched : resolveBase catalog baseModel = none →
    ((validateAndStore calls readers maxMb catalog filename baseModel)
      (some (.ofUpload upload))).2 = some (.ofUpload upload)

/-! ## The members -/

theorem contentSize_mapError {ε ε' : Type} (f : ε → ε') (src : Except ε Stream) :
    contentSize (src.mapError f) = contentSize src := by
  cases src with
  | error e => rfl
  | ok st => rfl

theorem Member.contentSize_le (m : Member) : contentSize m.stream ≤ m.fileSize := by
  cases hm : m.stream with
  | error e => exact Nat.zero_le _
  | ok st => exact m.within st hm

/-- What a checked zip is. -/
theorem checkZipMembers_eq_ok {infos : List Member} {maxMb : Nat} :
    checkZipMembers infos maxMb = .ok () ↔
      (infos.map Member.filename).find? nested = none ∧
      ((infos.map Member.filename).Nodup ∧
        (∀ n ∈ infos.map Member.filename, n ∈ peftMembers) ∧
        ∀ n ∈ peftMembers, n ∈ infos.map Member.filename) ∧
      (infos.map Member.fileSize).sum ≤ maxMb * mebibyte := by
  simp only [checkZipMembers]
  split
  · next n hn => simp [hn]
  · next hnone =>
      split
      · next hnames =>
          split
          · next hlt =>
              refine iff_of_false nofun fun h ↦ ?_
              exact absurd h.2.2 (Nat.not_le.mpr hlt)
          · next hle => exact iff_of_true rfl ⟨hnone, hnames, Nat.le_of_not_lt hle⟩
      · next hnames => exact iff_of_false nofun fun h ↦ hnames h.2.1

/-- A checked zip has the two members, and no other. -/
theorem realSize_of_check {infos : List Member} {maxMb : Nat}
    (h : checkZipMembers infos maxMb = .ok ()) :
    (infos.map fun m ↦ contentSize m.stream).sum =
      contentSize (openMember infos .config) + contentSize (openMember infos .weights) := by
  obtain ⟨-, hnames, -⟩ := checkZipMembers_eq_ok.mp h
  have hperm : (infos.map Member.filename).Perm peftMembers := by
    rw [List.perm_ext_iff_of_nodup hnames.1 (by decide)]
    exact fun n ↦ ⟨hnames.2.1 n, hnames.2.2 n⟩
  obtain ⟨a, b, rfl⟩ : ∃ a b, infos = [a, b] := by
    have hlen := hperm.length_eq
    rw [List.length_map] at hlen
    exact List.length_eq_two.mp hlen
  have hne : PeftFile.config.filename ≠ PeftFile.weights.filename := by decide
  rcases List.perm_pair.mp hperm with hpair | hpair
  · obtain ⟨ha, hb⟩ : a.filename = PeftFile.config.filename ∧
        b.filename = PeftFile.weights.filename := by simpa using hpair
    simp [openMember, ha, hb, hne, contentSize_mapError]
  · obtain ⟨ha, hb⟩ : a.filename = PeftFile.weights.filename ∧
        b.filename = PeftFile.config.filename := by simpa using hpair
    simp [openMember, ha, hb, hne.symm, contentSize_mapError, Nat.add_comm]

/-- The members of a checked zip are within the cap together. -/
theorem contents_le_of_check {infos : List Member} {maxMb : Nat}
    (h : checkZipMembers infos maxMb = .ok ()) :
    (infos.map fun m ↦ contentSize m.stream).sum ≤ maxMb * mebibyte := by
  have hsum : (infos.map fun m ↦ contentSize m.stream).sum ≤ (infos.map Member.fileSize).sum :=
    List.sum_le_sum fun m _ ↦ m.contentSize_le
  exact hsum.trans (checkZipMembers_eq_ok.mp h).2.2

/-! ## What is written -/

section Copy

variable {ρ : Type} {reads writes : Nat → Outcome} {maxBytes : Nat} {tooLarge : Raised ρ}
  {ending : Option (Raised ρ)}

/-- The loop adds no more than the stream has. -/
theorem wp_copyCapped_le {chunks : List Bytes} {i written n : Nat} {file : Bytes}
    (hn : file.length + chunks.flatten.length ≤ n) :
    wp (copyCapped reads writes maxBytes tooLarge ending i written chunks)
      (fun _ x ↦ fileLength x ≤ n) (fun _ x ↦ fileLength x ≤ n) (some file) := by
  induction chunks generalizing i written file with
  | nil =>
      have hfile : file.length ≤ n := by simpa using hn
      rw [copyCapped, wp_bind, wp_ask]
      refine ⟨fun _ ↦ ?_, fun _ ↦ hfile⟩
      cases ending with
      | none => exact hfile
      | some e => exact hfile
  | cons chunk rest ih =>
      rw [List.flatten_cons, List.length_append] at hn
      have hfile : file.length ≤ n := by omega
      have hlonger : (file ++ chunk).length + rest.flatten.length ≤ n := by
        rw [List.length_append]
        omega
      rw [copyCapped, wp_bind, wp_ask]
      refine ⟨fun _ ↦ ?_, fun _ ↦ hfile⟩
      split
      · exact hfile
      · rw [wp_bind, wp_call]
        refine ⟨fun _ ↦ ih hlonger, fun _ ↦ hfile, fun _ ↦ ?_⟩
        exact (Nat.le_add_right _ _).trans hlonger

end Copy

theorem wp_extractMember_le {calls : MemberCall → Outcome} {maxMb : Nat}
    {src : Except Error Stream} :
    wp (extractMember calls maxMb src) (fun _ x ↦ fileLength x ≤ contentSize src)
      (fun _ x ↦ fileLength x ≤ contentSize src) none := by
  simp only [extractMember, wp_bind, wp_ask]
  refine ⟨fun _ ↦ ?_, fun _ ↦ Nat.zero_le _⟩
  cases src with
  | error e => exact Nat.zero_le _
  | ok src =>
      rw [wp_lift_ok, wp_call]
      refine ⟨fun _ ↦ ?_, fun _ ↦ Nat.zero_le _, fun _ ↦ Nat.zero_le _⟩
      have hflat : (slices mebibyte src.content).flatten = src.content :=
        flatten_slices (by decide)
      have hlength : ([] : Bytes).length + (slices mebibyte src.content).flatten.length ≤
          contentSize (.ok src : Except Error Stream) := by
        rw [hflat, List.length_nil, Nat.zero_add, contentSize]
      rw [wp_closing]
      exact wp_mono (wp_copyCapped_le hlength)
        (fun _ x hx ↦ ⟨fun _ ↦ hx, fun _ ↦ hx⟩) fun _ x hx ↦ ⟨fun _ ↦ hx, fun _ ↦ hx⟩

section Store

variable {calls : StoreCall → Outcome} {readers : Readers} {maxMb : Nat} {entry : Base}
  {upload : Bytes}

/-- Both members together stay within the cap. -/
theorem wp_extractAll_le :
    wp (extractAll calls readers maxMb upload)
      (fun _ d ↦ Dir.extracted d ≤ maxMb * mebibyte)
      (fun _ d ↦ Dir.extracted d ≤ maxMb * mebibyte) (expanding upload none none) := by
  simp only [extractAll, wp_bind, wp_ask]
  refine ⟨fun _ ↦ ?_, fun _ ↦ Nat.zero_le _⟩
  cases readers.members upload with
  | none => exact Nat.zero_le _
  | some infos =>
  rw [Option.elim_some, wp_lift_ok]
  cases hcheck : checkZipMembers infos maxMb with
  | error e => exact Nat.zero_le _
  | ok u =>
  have hcap := contents_le_of_check hcheck
  rw [realSize_of_check hcheck] at hcap
  rw [wp_lift_ok, extract, wp_zoom]
  refine wp_mono wp_extractMember_le (fun _ x hx ↦ ?_) fun _ x hx ↦ ?_
  · rw [extract, wp_zoom]
    have hboth : ∀ y, fileLength y ≤ contentSize (openMember infos .weights) →
        fileLength x + fileLength y ≤ maxMb * mebibyte := by
      intro y hy
      omega
    exact wp_mono wp_extractMember_le (fun _ y hy ↦ hboth y hy) fun _ y hy ↦ hboth y hy
  · show fileLength x + 0 ≤ _
    omega

theorem wp_storePeft_le :
    wp (storePeft calls readers maxMb entry)
      (fun _ d ↦ Dir.extracted d ≤ maxMb * mebibyte)
      (fun _ d ↦ Dir.extracted d ≤ maxMb * mebibyte) (some (.ofUpload upload)) := by
  have hupload : Dir.uploadBytes (some (.ofUpload upload)) = upload := rfl
  have hmake : Dir.make (some (.ofUpload upload)) = expanding upload none none := rfl
  simp only [storePeft, wp_bind, wp_ask, wp_gets, hupload]
  refine ⟨fun _ ↦ ?_, fun _ ↦ Nat.zero_le _⟩
  split
  · rw [wp_bind, wp_call]
    refine ⟨fun _ ↦ ?_, fun _ ↦ Nat.zero_le _, fun _ ↦ Nat.zero_le _⟩
    rw [wp_bind, wp_tryCatch, hmake]
    refine wp_mono wp_extractAll_le (fun _ d hd ↦ ?_) fun e d hd ↦ wp_rejectCorrupt (fun _ ↦ hd) e
    -- the checks change nothing
    simp only [checkExtracted, wp_bind, wp_ask, wp_gets]
    refine ⟨fun _ ↦ ?_, fun _ ↦ hd⟩
    cases checkSafetensors readers ((Dir.get d .weights).getD []) with
    | error e => exact hd
    | ok u =>
    refine ⟨fun _ ↦ ?_, fun _ ↦ hd⟩
    cases checkPeftConfig readers entry ((Dir.get d .config).getD []) with
    | error e => exact hd
    | ok u => exact hd
  · exact Nat.zero_le _

/-- If the upload is stored, its members are within the cap together. -/
theorem wp_storeUpload_peft :
    wp (storeUpload calls readers maxMb entry .peft)
      (fun _ _ ↦ realSize readers upload ≤ maxMb * mebibyte) (fun _ _ ↦ True)
      (some (.ofUpload upload)) := by
  refine wp_storeUpload (fun d hd ↦ ?_) fun _ _ _ ↦ trivial
  cases hd with
  | peft config weights h =>
      obtain ⟨infos, hinfos, hcheck, -, -⟩ := h.members
      rw [realSize, hinfos]
      exact contents_le_of_check hcheck

/-- An upload over the cap is rejected, and its directory removed. -/
theorem validateAndStore_beyond {catalog : List Base} {filename baseModel : String}
    (hzip : formatForFilename filename = .ok .peft)
    (hbase : resolveBase catalog baseModel = some entry)
    (hlt : maxMb * mebibyte < realSize readers upload) :
    ∃ e d, (validateAndStore calls readers maxMb catalog filename baseModel)
      (some (.ofUpload upload)) = (.error e, d) ∧ (calls .rmtree ≠ .fails → d = none) := by
  have hrun : wp (validateAndStore calls readers maxMb catalog filename baseModel)
      (fun _ _ ↦ realSize readers upload ≤ maxMb * mebibyte)
      (fun _ d ↦ calls .rmtree ≠ .fails → d = none) (some (.ofUpload upload)) := by
    simp only [validateAndStore, wp_bind, hzip, hbase, wp_lift_ok, wp_onRaise]
    refine wp_mono wp_storeUpload_peft (fun _ _ h ↦ h) fun _ _ _ ↦ ?_
    rw [wp_quiet]
    exact ⟨fun _ _ ↦ rfl, fun hfails h ↦ absurd hfails h⟩
  rcases run_of_wp hrun with ⟨a, d, -, hle⟩ | ⟨e, d, hd, hnone⟩
  · omega
  · exact ⟨e, d, hd, hnone⟩

end Store

/-- The headers declare a byte each, and the streams have it. -/
def smallZip : Readers :=
  { noReaders with
    isZip := fun _ ↦ true
    members := fun _ ↦ some
      [⟨"adapter_config.json", 1, .ok ⟨[123], none⟩, fun _ h ↦ by cases h; decide⟩,
        ⟨"adapter_model.safetensors", 1, .ok ⟨[0], none⟩, fun _ h ↦ by cases h; decide⟩] }

end Adapta.Adapters.Import
