import OnionRouter.Directory.Batch
import OnionRouter.Directory.RelayHandler
import Mathlib.Data.Fintype.Basic

/-!
# Registrations in progress

`handle_signup` fills in the descriptor after `gen_relay` has released the lock: first the
public key, then the address. The steps of the sessions interleave, and `get_relay_batch`
may come in between.

* `handleSignup_eq`: the three steps in a row are `handle_signup`.
* `complete_of_reachable`: as long as no call gets to a relay whose session is not done,
  what is handed out was filled in.
-/

namespace OnionRouter.Directory

open Lib Memory RelayManager

/-! ## The steps of `handle_signup` -/

/-- `get_other_public_key` into the object that a pointer leads to; `none` when there is
    none. -/
def writePublicKey (m : RelayManager) (addr : ℕ) (publicKey : List UInt8) : Option RelayManager := do
  let data ← m.heap addr
  return m.describe addr { data.descriptor with publicKey := publicKey }

/-- `memcpy` of the address into the object. -/
def writeSockAddr (m : RelayManager) (addr : ℕ) (sockAddr : List UInt8) : Option RelayManager := do
  let data ← m.heap addr
  return m.describe addr { data.descriptor with sockAddr := sockAddr }

/-- Where a session is in `handle_signup`, its pointer, and what it writes. -/
inductive Progress
  | idle
  | generated (addr : ℕ) (descriptor : RelayDescriptor)
  | keyed (addr : ℕ) (descriptor : RelayDescriptor)
  | done

/-- The object that a session is filling in, and with what. -/
def Progress.pending : Progress → Option (ℕ × RelayDescriptor)
  | generated addr descriptor => some (addr, descriptor)
  | keyed addr descriptor => some (addr, descriptor)
  | _ => none

/-- The directory, the sessions, and the descriptors that clients got. -/
structure Signups (ι : Type*) where
  manager : RelayManager
  progress : ι → Progress
  /-- What the session of a relay writes to its descriptor. -/
  intended : Memory (Option RelayDescriptor)
  /-- What the calls of `get_relay_batch` copied so far. -/
  copied : List RelayData

/-- A step of a session. -/
inductive SignupStep (ι : Type*)
  | gen (i : ι) (addr : ℕ) (descriptor : RelayDescriptor)
  | writePublicKey (i : ι)
  | writeSockAddr (i : ι)
  | batch (start max : ℕ)

variable {ι : Type*} [DecidableEq ι]

/-- The directory after a step, and how far the session is. -/
def Signups.update (s : Signups ι) (i : ι) (m : RelayManager) (progress : Progress) : Signups ι :=
  { s with manager := m, progress := fun j => if j = i then progress else s.progress j }

theorem Signups.update_progress (s : Signups ι) (i : ι) (m : RelayManager) (progress : Progress) :
    (s.update i m progress).progress i = progress := if_pos rfl

theorem Signups.update_progress_of_ne (s : Signups ι) {i j : ι} (hj : j ≠ i) (m : RelayManager)
    (progress : Progress) : (s.update i m progress).progress j = s.progress j := if_neg hj

/-- A new relay, and what its session is going to write. -/
def Signups.intend (s : Signups ι) (id : ℕ) (descriptor : RelayDescriptor) : Signups ι :=
  { s with intended := s.intended.set id (some descriptor) }

/-- A step, if it is the next one of its session. -/
def Signups.step (s : Signups ι) : SignupStep ι → Option (Signups ι)
  | .gen i addr descriptor =>
    match s.progress i with
    | .idle => (s.manager.genRelay addr).bind fun m => (m.heap addr).map fun data =>
      (s.update i m (.generated addr descriptor)).intend data.relayId descriptor
    | _ => none
  | .writePublicKey i =>
    match s.progress i with
    | .generated addr descriptor =>
      (writePublicKey s.manager addr descriptor.publicKey).map (s.update i · (.keyed addr descriptor))
    | _ => none
  | .writeSockAddr i =>
    match s.progress i with
    | .keyed addr descriptor =>
      (writeSockAddr s.manager addr descriptor.sockAddr).map (s.update i · .done)
    | _ => none
  | .batch start max =>
    (s.manager.getRelayBatch start max).map fun out => { s with copied := out.1 ++ s.copied }

/-- The runs of any number of sessions, from any directory in which no SIGNUP is in
    progress. -/
def signupMachine : Machine (Signups ι) (SignupStep ι) :=
  .ofFun {s | ∃ r, relayMachine.Reachable Machine.anyStep r ∧
    s = ⟨r.manager, fun _ => .idle, fun id => (r.manager.relay id).map RelayData.descriptor, []⟩}
    Signups.step

/-- What clients got is what the sessions wrote, or write. -/
def Complete (s : Signups ι) : Prop :=
  ∀ data ∈ s.copied, s.intended data.relayId = some data.descriptor

/-- A call comes to a relay whose session is not done only after it has found enough
    others. -/
def BehindBatch : Machine.Guard (Signups ι) (SignupStep ι)
  | s, .batch start max => ∀ i, ∀ p ∈ (s.progress i).pending, ∀ data ∈ s.manager.heap p.1,
      data.relayId ∉ (s.manager.relaysFrom start).take max
  | _, _ => True

/-! ## The writes -/

variable {m m' : RelayManager} {addr : ℕ}

theorem describe_of_heap {data : RelayData} (hdata : m.heap addr = some data)
    (descriptor : RelayDescriptor) :
    (m.describe addr descriptor).heap addr = some { data with descriptor := descriptor } := by
  rw [describe_heap, set_self, hdata, Option.map_some]

/-- Of two writes to an object, the second one stays. -/
theorem describe_describe (descriptor descriptor' : RelayDescriptor) :
    (m.describe addr descriptor).describe addr descriptor' = m.describe addr descriptor' := by
  have hheap : ((m.describe addr descriptor).describe addr descriptor').heap =
      (m.describe addr descriptor').heap := by
    funext a
    rcases eq_or_ne a addr with rfl | ha
    · simp only [describe_heap, set_self, Option.map_map]
      rfl
    · simp only [describe_heap, set_of_ne _ ha]
  exact congrArg (fun heap => { m with heap := heap }) hheap

theorem writePublicKey_of_heap {data : RelayData} (hdata : m.heap addr = some data)
    (publicKey : List UInt8) : writePublicKey m addr publicKey =
      some (m.describe addr { data.descriptor with publicKey := publicKey }) := by
  rw [writePublicKey, hdata]
  rfl

theorem writeSockAddr_of_heap {data : RelayData} (hdata : m.heap addr = some data)
    (sockAddr : List UInt8) : writeSockAddr m addr sockAddr =
      some (m.describe addr { data.descriptor with sockAddr := sockAddr }) := by
  rw [writeSockAddr, hdata]
  rfl

/-- There is an object where `gen_relay` put it. -/
theorem heap_of_genRelay (hgen : m.genRelay addr = some m') : ∃ data, m'.heap addr = some data := by
  have hfill : ∀ (m₁ : RelayManager) (id : ℕ), ∃ data, (m₁.fill id addr).heap addr = some data :=
    fun m₁ id => ⟨_, set_self _ _ _⟩
  rw [genRelay] at hgen
  split_ifs at hgen with hused hstack hfull
  · obtain ⟨-, hgen⟩ := Option.ite_none_left_eq_some.1 hgen
    exact Option.some_inj.1 hgen ▸ hfill _ _
  · exact Option.some_inj.1 hgen ▸ hfill _ _
  · exact Option.some_inj.1 hgen ▸ hfill _ _

/-- The three steps in a row are `handle_signup`. -/
theorem handleSignup_eq (m : RelayManager) (key : List UInt8) (buffer : Memory UInt8) (sent : Bool)
    (addr : ℕ) :
    handleSignup m none key buffer sent addr =
      (m.genRelay addr).bind fun m => (writePublicKey m addr key).bind fun m =>
        (writeSockAddr m addr (relayAddr buffer)).map fun m =>
          ⟨sent, true, m, some addr, some .success, none⟩ := by
  rw [handleSignup]
  refine Option.bind_congr fun m' hgen => ?_
  obtain ⟨data, hdata⟩ := heap_of_genRelay hgen
  rw [writePublicKey_of_heap hdata, Option.bind_some,
    writeSockAddr_of_heap (describe_of_heap hdata _), describe_describe]
  rfl

/-! ## What the steps keep -/

/-- What the steps keep. -/
structure SignupInvariant (s : Signups ι) : Prop where
  consistent : Consistent s.manager
  /-- A session that is not done has an entry. -/
  pending : ∀ i, ∀ p ∈ (s.progress i).pending, ∃ id ∈ s.manager.liveIds,
    (s.manager.items id).data = some p.1 ∧ s.intended id = some p.2
  keyed : ∀ i addr descriptor, s.progress i = .keyed addr descriptor →
    ∀ data ∈ s.manager.heap addr, data.descriptor.publicKey = descriptor.publicKey
  /-- An entry for which no session is at work has its descriptor. -/
  filled : ∀ id ∈ s.manager.liveIds, ∀ addr, (s.manager.items id).data = some addr →
    (∀ i, ∀ p ∈ (s.progress i).pending, p.1 ≠ addr) →
    ∀ data ∈ s.manager.heap addr, s.intended id = some data.descriptor
  complete : Complete s
  copied : ∀ data ∈ s.copied, data.relayId ∈ s.manager.liveIds

namespace SignupInvariant

variable {s s' : Signups ι} {i : ι} {descriptor : RelayDescriptor}

/-- A write of a session to its object. The key is written then, and with the address the
    session is done. -/
theorem update (h : SignupInvariant s) {progress : Progress} {d : RelayDescriptor}
    (hpending : (s.progress i).pending = some (addr, descriptor))
    (hkey : d.publicKey = descriptor.publicKey)
    (hprogress : progress = .keyed addr descriptor ∨ progress = .done ∧ d = descriptor) :
    SignupInvariant (s.update i (s.manager.describe addr d) progress) := by
  obtain ⟨id, hid, hitem, hintended⟩ := h.pending i _ hpending
  obtain ⟨_, data, hitem', hdata, hrelayId⟩ := h.consistent.relay id hid
  obtain rfl := Option.some_inj.1 (hitem.symm.trans hitem')
  have hheap := describe_of_heap hdata d
  have hother : ∀ a, a ≠ addr → (s.manager.describe addr d).heap a = s.manager.heap a :=
    fun a ha => set_of_ne _ ha _
  -- Who is pending was so before.
  have hbefore : ∀ j, ∀ p ∈ ((s.update i (s.manager.describe addr d) progress).progress j).pending,
      p ∈ (s.progress j).pending := by
    intro j p hp
    rcases eq_or_ne j i with rfl | hj
    · rw [s.update_progress] at hp
      rcases hprogress with rfl | ⟨rfl, -⟩
      · exact hpending ▸ hp
      · cases hp
    · rwa [s.update_progress_of_ne hj] at hp
  refine ⟨h.consistent.describe addr d, fun j p hp => h.pending j p (hbefore j p hp), ?_, ?_,
    h.complete, h.copied⟩
  · -- The key: in the object that was written, and in those of other sessions as before.
    intro j a descriptor' hj data' hdata'
    rcases eq_or_ne a addr with rfl | ha
    · obtain rfl := Option.some_inj.1 (hheap.symm.trans hdata')
      obtain ⟨id', hid', hitem', hintended'⟩ := h.pending j (a, descriptor') (hbefore j _ (hj ▸ rfl))
      obtain rfl := h.consistent.eq_of_data_eq hid' hid hitem' hitem
      obtain rfl := Option.some_inj.1 (hintended.symm.trans hintended')
      exact hkey
    · have hj' : j ≠ i := by
        rintro rfl
        rw [s.update_progress] at hj
        rcases hprogress with rfl | ⟨rfl, -⟩
        · exact ha (Progress.keyed.inj hj).1.symm
        · cases hj
      rw [s.update_progress_of_ne hj'] at hj
      exact h.keyed j a descriptor' hj data' ((hother a ha).symm.trans hdata')
  · -- The whole descriptor: the session is done, or its object is none of those meant.
    intro id' hid' a hitem' hnone data' hdata'
    rcases eq_or_ne a addr with rfl | ha
    · obtain rfl := Option.some_inj.1 (hheap.symm.trans hdata')
      obtain rfl := h.consistent.eq_of_data_eq hid' hid hitem' hitem
      rcases hprogress with rfl | ⟨-, rfl⟩
      · exact absurd rfl (hnone i (a, descriptor) (by rw [s.update_progress]; rfl))
      · exact hintended
    · refine h.filled id' hid' a hitem' (fun j p hp => ?_) data' ((hother a ha).symm.trans hdata')
      rcases eq_or_ne j i with rfl | hj
      · obtain rfl := Option.some_inj.1 (hpending.symm.trans hp)
        exact ha.symm
      · exact hnone j p (by rwa [s.update_progress_of_ne hj])

theorem gen (h : SignupInvariant s) (hidle : s.progress i = .idle) {id : ℕ}
    (hm' : Consistent m') (hgen : Generated s.manager m' id addr) :
    SignupInvariant ((s.update i m' (.generated addr descriptor)).intend id descriptor) := by
  have hne : ∀ id' ∈ s.manager.liveIds, id' ≠ id := fun id' hid' heq => hgen.notMem (heq ▸ hid')
  have hfresh : ∀ id' ∈ s.manager.liveIds, ∀ a, (s.manager.items id').data = some a → a ≠ addr :=
    fun id' hid' a ha => h.consistent.ne_of_fresh hgen.fresh hid' ha
  have hlive : ∀ id' ∈ s.manager.liveIds, id' ∈ m'.liveIds := by
    intro id' hid'
    rw [hgen.liveIds]
    exact Finset.mem_insert_of_mem hid'
  have hold : ∀ id' ∈ s.manager.liveIds,
      (s.intended.set id (some descriptor)) id' = s.intended id' :=
    fun id' hid' => set_of_ne _ (hne id' hid') _
  have hself := s.update_progress i m' (.generated addr descriptor)
  have hother : ∀ j, j ≠ i →
      (s.update i m' (.generated addr descriptor)).progress j = s.progress j :=
    fun j hj => s.update_progress_of_ne hj m' _
  refine ⟨hm', fun j p hp => ?_, fun j a descriptor' hj data hdata => ?_,
    fun id' hid' a hitem hnone data hdata => ?_,
    fun data hdata => (hold _ (h.copied data hdata)).trans (h.complete data hdata),
    fun data hdata => hlive _ (h.copied data hdata)⟩
  · -- The new session has the new entry, the others keep theirs.
    rcases eq_or_ne j i with rfl | hj
    · obtain rfl := Option.some_inj.1 ((congrArg Progress.pending hself).symm.trans hp)
      exact ⟨id, hgen.liveIds ▸ Finset.mem_insert_self _ _, hgen.data, set_self _ _ _⟩
    · obtain ⟨id', hid', hitem, hintended⟩ :=
        h.pending j p ((congrArg Progress.pending (hother j hj)).symm.trans hp)
      refine ⟨id', hlive id' hid', ?_, (hold id' hid').trans hintended⟩
      exact (congrArg Item.data (hgen.items id' hid')).trans hitem
  · rcases eq_or_ne j i with rfl | hj'
    · cases hself.symm.trans hj
    · have hj := (hother j hj').symm.trans hj
      obtain ⟨id', hid', hitem, -⟩ := h.pending j (a, descriptor') (hj ▸ rfl)
      exact h.keyed j a descriptor' hj data
        ((hgen.heap a (hfresh id' hid' a hitem)).symm.trans hdata)
  · -- An entry for which nobody is at work is an old one.
    have ha : a ≠ addr := fun ha =>
      hnone i (addr, descriptor) (congrArg Progress.pending hself) ha.symm
    have hid' : id' ∈ s.manager.liveIds := by
      refine (Finset.mem_insert.1 (hgen.liveIds ▸ hid')).resolve_left ?_
      rintro rfl
      exact ha (Option.some_inj.1 (hitem.symm.trans hgen.data))
    have hitem : (s.manager.items id').data = some a :=
      (congrArg Item.data (hgen.items id' hid')).symm.trans hitem
    refine (hold id' hid').trans (h.filled id' hid' a hitem (fun j p hp => ?_) data
      ((hgen.heap a ha).symm.trans hdata))
    rcases eq_or_ne j i with rfl | hj
    · rw [hidle] at hp
      cases hp
    · exact hnone j p ((congrArg Progress.pending (hother j hj)).trans hp)

omit [DecidableEq ι] in
theorem batch (h : SignupInvariant s) {start max : ℕ} (hbehind : BehindBatch s (.batch start max))
    {out : List RelayData} (hout : Objects s.manager ((s.manager.relaysFrom start).take max) out) :
    SignupInvariant { s with copied := out ++ s.copied } := by
  have hlive : ∀ data ∈ out, data.relayId ∈ s.manager.liveIds := by
    intro data hdata
    have hmem : data.relayId ∈ out.map RelayData.relayId := List.mem_map_of_mem hdata
    rw [hout.relayId] at hmem
    exact (mem_relaysFrom h.consistent start).1 (List.mem_of_mem_take hmem)
  refine ⟨h.consistent, h.pending, h.keyed, h.filled, fun data hdata => ?_, fun data hdata => ?_⟩
  · rcases List.mem_append.1 hdata with hdata | hdata
    · obtain ⟨addr, hitem, hheap⟩ := Option.bind_eq_some_iff.1 (hout.mem hdata)
      refine h.filled _ (hlive data hdata) addr hitem (fun i p hp heq => ?_) data hheap
      -- A relay that is not done was behind those that are copied.
      refine hbehind i p hp data (heq ▸ hheap) ?_
      rw [← hout.relayId]
      exact List.mem_map_of_mem hdata
    · exact h.complete data hdata
  · rcases List.mem_append.1 hdata with hdata | hdata
    · exact hlive data hdata
    · exact h.copied data hdata

theorem step (h : SignupInvariant s) {step : SignupStep ι} (hbehind : BehindBatch s step)
    (hstep : s.step step = some s') : SignupInvariant s' := by
  cases step with
  | gen i addr descriptor =>
    simp only [Signups.step] at hstep
    split at hstep
    case h_1 hidle =>
      obtain ⟨m', hm', hstep⟩ := Option.bind_eq_some_iff.1 hstep
      obtain ⟨data, hdata, rfl⟩ := Option.map_eq_some_iff.1 hstep
      obtain ⟨hconsistent, id, hgen⟩ := genRelay_spec h.consistent hm'
      obtain rfl := Option.some_inj.1 (hgen.new.symm.trans hdata)
      exact h.gen hidle hconsistent hgen
    case h_2 => cases hstep
  | writePublicKey i =>
    simp only [Signups.step] at hstep
    split at hstep
    case h_1 addr descriptor hi =>
      obtain ⟨m', hm', rfl⟩ := Option.map_eq_some_iff.1 hstep
      obtain ⟨data, hdata, hm'⟩ := Option.bind_eq_some_iff.1 hm'
      obtain rfl := Option.some_inj.1 hm'
      have hpending := congrArg Progress.pending hi
      exact h.update hpending rfl (.inl rfl)
    case h_2 => cases hstep
  | writeSockAddr i =>
    simp only [Signups.step] at hstep
    split at hstep
    case h_1 addr descriptor hi =>
      obtain ⟨m', hm', rfl⟩ := Option.map_eq_some_iff.1 hstep
      obtain ⟨data, hdata, hm'⟩ := Option.bind_eq_some_iff.1 hm'
      obtain rfl := Option.some_inj.1 hm'
      -- The key is there already, so the two writes make up the descriptor.
      have hkey := h.keyed i addr descriptor hi data hdata
      refine h.update (congrArg Progress.pending hi) hkey (.inr ⟨rfl, ?_⟩)
      exact congrArg (RelayDescriptor.mk descriptor.sockAddr) hkey
    case h_2 => cases hstep
  | batch start max =>
    obtain ⟨out, hout, hobjects⟩ := getRelayBatch_spec h.consistent start max
    simp only [Signups.step, hout, Option.map_some, Option.some_inj] at hstep
    exact hstep ▸ h.batch hbehind hobjects

omit [DecidableEq ι] in
/-- In a directory without a SIGNUP in progress, the entries have their descriptors. -/
theorem init {m : RelayManager} (hm : Consistent m) : SignupInvariant
    (⟨m, fun _ => .idle, fun id => (m.relay id).map RelayData.descriptor, []⟩ : Signups ι) where
  consistent := hm
  pending _ _ hp := by cases hp
  keyed _ _ _ hi := by cases hi
  filled id _ addr hitem _ data hdata := by
    have hrelay : m.relay id = some data := by
      rw [relay, hitem]
      exact hdata
    exact congrArg (Option.map RelayData.descriptor) hrelay
  complete _ hdata := by cases hdata
  copied _ hdata := by cases hdata

end SignupInvariant

/-- In a run whose calls stay clear of the relays that are not done, what clients got was
    filled in. -/
theorem complete_of_reachable {s : Signups ι} (hs : signupMachine.Reachable BehindBatch s) :
    Complete s := by
  have hinv : SignupInvariant s := by
    refine hs.invariant ?_ ?_
    · rintro _ ⟨r, hr, rfl⟩
      exact .init (relayInvariant_of_reachable hr).consistent
    · intro s step s' hinv hbehind hstep
      exact hinv.step hbehind hstep
  exact hinv.complete

instance [Fintype ι] : ∀ (s : Signups ι) step, Decidable (BehindBatch s step)
  | s, .batch start max => inferInstanceAs (Decidable (∀ i, ∀ p ∈ (s.progress i).pending,
      ∀ data ∈ s.manager.heap p.1, data.relayId ∉ (s.manager.relaysFrom start).take max))
  | _, .gen _ _ _ => .isTrue trivial
  | _, .writePublicKey _ => .isTrue trivial
  | _, .writeSockAddr _ => .isTrue trivial

/-- The descriptor of a relay. -/
def exampleDescriptor (n : UInt8) : RelayDescriptor := ⟨List.replicate 20 n, List.replicate 256 n⟩

/-- One session is done, and another one is in between its writes. -/
theorem complete_of_reachable_two : ∃ s : Signups Bool, Complete s ∧
    s.copied.map (fun data => data.relayId) = [0] := by
  have hrun : (Machine.run (Machine.checked BehindBatch Signups.step)
      (⟨initRelayManager fun _ => 0, fun _ => .idle, fun _ => none, []⟩ : Signups Bool)
      [.gen false 10 (exampleDescriptor 1), .writePublicKey false, .gen true 11 (exampleDescriptor 2),
        .writeSockAddr false, .writePublicKey true, .batch 0 1]).any
      (fun s => s.copied.map (fun data => data.relayId) = [0]) = true := by
    decide +kernel
  have hinit : (⟨initRelayManager fun _ => 0, fun _ => .idle, fun _ => none, []⟩ : Signups Bool) ∈
      signupMachine.init := ⟨_, .init ⟨_, rfl⟩, rfl⟩
  obtain ⟨s, hs, hcopied⟩ := Machine.exists_of_run hinit hrun
  exact ⟨s, complete_of_reachable hs, of_decide_eq_true hcopied⟩

/-- A request after `gen_relay` gets the zeros that `calloc` left. -/
theorem not_complete_of_reachable :
    ∃ s : Signups Unit, signupMachine.Reachable Machine.anyStep s ∧ ¬ Complete s := by
  have hrun : (Machine.run (Machine.checked Machine.anyStep Signups.step)
      (⟨initRelayManager fun _ => 0, fun _ => .idle, fun _ => none, []⟩ : Signups Unit)
      [.gen () 10 (exampleDescriptor 1), .batch 0 14]).any
      (fun s => s.copied.any fun data => (s.intended data.relayId).any fun descriptor =>
        descriptor.publicKey ≠ data.descriptor.publicKey) = true := by
    decide +kernel
  have hinit : (⟨initRelayManager fun _ => 0, fun _ => .idle, fun _ => none, []⟩ : Signups Unit) ∈
      signupMachine.init := ⟨_, .init ⟨_, rfl⟩, rfl⟩
  obtain ⟨s, hs, hzeros⟩ := Machine.exists_of_run hinit hrun
  refine ⟨s, hs, fun hcomplete => ?_⟩
  obtain ⟨data, hdata, hne⟩ := List.any_eq_true.1 hzeros
  rw [hcomplete data hdata] at hne
  exact absurd rfl (of_decide_eq_true hne)

end OnionRouter.Directory
