import OnionRouter.Lib.Memory
import OnionRouter.Lib.Transition
import Mathlib.Algebra.Order.Ring.Nat

/-!
# The keys of the sockets

`socket_context.c`: the list of the session keys by descriptor, in a block of memory that
`realloc` may move when the list grows. A session takes a reference into the block by
`get_sock_key` and keeps it until `free_socket`.

* `Added`: what `add_socket` does for a free descriptor.
* `referencesValid_of_reachable`: the references are good as long as the block does not
  move while a session holds one.
-/

namespace OnionRouter.Directory

open Lib Memory

/-! ## The list -/

/-- A `key_sock_t`; `key_data_t` is the type `κ`. -/
structure KeySock (κ : Type*) where
  sockExists : Bool
  keyData : κ
  data : ℕ

/-- The `key_list`, with the identity of the block `arr` points to, and `socks_used`. -/
structure KeyList (κ : Type*) where
  block : ℕ
  arr : Memory (KeySock κ)
  length : ℕ
  socksUsed : UInt64

/-- A descriptor: an `int` that is not negative. -/
abbrev SockFd := Fin (2 ^ 31)

/-- The pointer `&key_list.arr[sock_fd].key_data`. -/
structure KeyRef where
  block : ℕ
  index : ℕ
  deriving DecidableEq

variable {κ : Type*}

/-- Marking the entries from `start` to `stop` as free. -/
def clearEntries (arr : Memory (KeySock κ)) (start stop : ℕ) : Memory (KeySock κ) :=
  fun i => if start ≤ i ∧ i < stop then { arr i with sockExists := false } else arr i

/-- `KEY_LIST_START_SIZE`. -/
def keyListStartSize : ℕ := 4

/-- `init_socket_context`, on what `malloc` hands out. -/
def initSocketContext (memory : Memory (KeySock κ)) : KeyList κ where
  block := 0
  arr := clearEntries memory 0 keyListStartSize
  length := keyListStartSize
  socksUsed := 0

namespace KeyList

variable (l : KeyList κ)

/-- `is_valid_socket`. -/
def isValidSocket (sockFd : SockFd) : Bool :=
  sockFd.val < l.length && (l.arr sockFd).sockExists

/-- The loop of `resize_key_list`. A length of 64 bits is 0 after 64 rounds, and then the
    loop does not end. -/
def growLength (sockFd : ℕ) : ℕ → ℕ → Option ℕ
  | 0, _ => none
  | rounds + 1, length =>
    if length ≤ sockFd then growLength sockFd rounds (length * 2 % 2 ^ 64) else some length

/-- `resize_key_list`; `moved` is whether `realloc` returns another block. -/
def resizeKeyList (sockFd : SockFd) (moved : Bool) : Option (KeyList κ) :=
  (growLength sockFd 65 l.length).map fun length =>
    { l with
      block := if moved then l.block + 1 else l.block
      arr := clearEntries l.arr l.length length
      length := length }

/-- `add_socket`, for a list that has room. -/
def useSocket (sockFd : SockFd) (key : κ) (data : ℕ) : Bool × KeyList κ :=
  if (l.arr sockFd).sockExists then (false, l)
  else (true, { l with arr := l.arr.set sockFd ⟨true, key, data⟩, socksUsed := l.socksUsed + 1 })

/-- `add_socket`. -/
def addSocket (sockFd : SockFd) (key : κ) (data : ℕ) (moved : Bool) : Option (Bool × KeyList κ) :=
  if l.length ≤ sockFd.val then
    (l.resizeKeyList sockFd moved).map fun l => l.useSocket sockFd key data
  else some (l.useSocket sockFd key data)

/-- `get_sock_key`. -/
def getSockKey (sockFd : SockFd) : Option KeyRef :=
  if l.isValidSocket sockFd then some ⟨l.block, sockFd⟩ else none

/-- `free_socket`, with `NULL` for `free_data` as in the handlers; `freeKey` is `free_key`. -/
def freeSocket (freeKey : κ → κ) (sockFd : SockFd) : KeyList κ :=
  if l.isValidSocket sockFd then
    { l with
      arr := l.arr.set sockFd
        { l.arr sockFd with sockExists := false, keyData := freeKey (l.arr sockFd).keyData }
      socksUsed := l.socksUsed - 1 }
  else l

end KeyList

/-! ## `add_socket` -/

/-- The length that the loop ends with, from a power of two. -/
theorem growLength_spec {sockFd rounds k : ℕ} (hfd : sockFd < 2 ^ 31) (hk : k ≤ 31)
    (hrounds : 31 < k + rounds) :
    ∃ j, k ≤ j ∧ j ≤ 31 ∧ KeyList.growLength sockFd rounds (2 ^ k) = some (2 ^ j) ∧
      sockFd < 2 ^ j := by
  induction rounds generalizing k with
  | zero => omega
  | succ rounds ih =>
    rw [KeyList.growLength]
    split_ifs with hle
    · have hlt : k < 31 := (Nat.pow_lt_pow_iff_right (by decide)).1 (hle.trans_lt hfd)
      have hdouble : 2 ^ k * 2 % 2 ^ 64 = 2 ^ (k + 1) := by
        rw [← Nat.pow_succ]
        exact Nat.mod_eq_of_lt (Nat.pow_lt_pow_right (by decide) (by omega))
      rw [hdouble]
      obtain ⟨j, hj, hrest⟩ := ih (Nat.succ_le_of_lt hlt) (by omega)
      exact ⟨j, Nat.le_of_succ_le hj, hrest⟩
    · exact ⟨k, le_rfl, hk, rfl, Nat.lt_of_not_le hle⟩

/-- A list that the calls make: its length is a power of two. -/
def Sized (l : KeyList κ) : Prop := ∃ k ≤ 31, l.length = 2 ^ k

/-- What `add_socket` does for a descriptor that is not used: the entry holds the key, the
    others stay, and those that are new are free. -/
structure Added (l l' : KeyList κ) (sockFd : SockFd) (key : κ) (moved : Bool) : Prop where
  sized : Sized l'
  le : l.length ≤ l'.length
  lt : sockFd.val < l'.length
  sockExists : (l'.arr sockFd).sockExists = true
  keyData : (l'.arr sockFd).keyData = key
  others : ∀ i < l.length, i ≠ sockFd.val → l'.arr i = l.arr i
  new : ∀ i, l.length ≤ i → i < l'.length → i ≠ sockFd.val → (l'.arr i).sockExists = false
  block : l'.block = l.block ∨ moved = true ∧ l.length ≤ sockFd.val

variable {l l' : KeyList κ} {sockFd : SockFd} {key : κ} {data : ℕ} {moved : Bool}

theorem useSocket_eq (hfree : (l.arr sockFd).sockExists = false) :
    l.useSocket sockFd key data =
      (true, { l with
        arr := l.arr.set sockFd ⟨true, key, data⟩, socksUsed := l.socksUsed + 1 }) := by
  rw [KeyList.useSocket, hfree]
  rfl

/-- `add_socket` returns, and takes a descriptor that is not used. -/
theorem addSocket_spec (key : κ) (data : ℕ) (moved : Bool) (hl : Sized l)
    (hfree : l.isValidSocket sockFd = false) :
    ∃ l', l.addSocket sockFd key data moved = some (true, l') ∧ Added l l' sockFd key moved := by
  obtain ⟨k, hk, hlength⟩ := hl
  rw [KeyList.addSocket]
  split_ifs with hgrow
  -- The list grows, and `realloc` may move it.
  · obtain ⟨j, hkj, hj, hgrown, hlt⟩ :=
      growLength_spec sockFd.isLt hk (show 31 < k + 65 by omega)
    have hle : l.length ≤ 2 ^ j := hlength ▸ Nat.pow_le_pow_right (by decide) hkj
    rw [KeyList.resizeKeyList, hlength, hgrown, Option.map_some, Option.map_some, useSocket_eq]
    · refine ⟨_, rfl, ⟨j, hj, rfl⟩, hle, hlt, ?_, ?_, fun i hi hne => ?_, fun i hi hi' hne => ?_,
        ?_⟩
      · exact congrArg KeySock.sockExists (set_self _ _ _)
      · exact congrArg KeySock.keyData (set_self _ _ _)
      · refine (set_of_ne _ hne _).trans (if_neg fun hnew => ?_)
        exact (hlength ▸ hi).not_ge hnew.1
      · refine (congrArg KeySock.sockExists (set_of_ne _ hne _)).trans ?_
        exact congrArg KeySock.sockExists (if_pos ⟨hlength ▸ hi, hi'⟩)
      · cases moved with
        | false => exact .inl rfl
        | true => exact .inr ⟨rfl, hgrow⟩
    · exact congrArg KeySock.sockExists (if_pos ⟨hlength ▸ hgrow, hlt⟩)
  · have hlt := Nat.lt_of_not_le hgrow
    rw [KeyList.isValidSocket, decide_eq_true hlt, Bool.true_and] at hfree
    rw [useSocket_eq hfree]
    refine ⟨_, rfl, ⟨k, hk, hlength⟩, le_rfl, hlt, ?_, ?_, fun i _ hne => set_of_ne _ hne _,
      fun i hi hi' _ => absurd hi' hi.not_gt, .inl rfl⟩
    · exact congrArg KeySock.sockExists (set_self _ _ _)
    · exact congrArg KeySock.keyData (set_self _ _ _)

/-! ## The sessions -/

/-- What the session on a descriptor did: nothing yet, `add_socket` with a key, or
    `get_sock_key` as well, which gave it a reference. -/
inductive KeySession (κ : Type*)
  | idle
  | added (key : κ)
  | holding (key : κ) (ref : KeyRef)

/-- The key that a session added. -/
def KeySession.addedKey : KeySession κ → Option κ
  | idle => none
  | added key => some key
  | holding key _ => some key

/-- Whether a session holds a reference. -/
def KeySession.isHolding : KeySession κ → Bool
  | holding _ _ => true
  | _ => false

/-- The list, and the session on every descriptor. -/
structure KeyRun (κ : Type*) where
  list : KeyList κ
  session : SockFd → KeySession κ

/-- A call of a session. -/
inductive KeyCall (κ : Type*)
  | add (sockFd : SockFd) (key : κ) (data : ℕ) (moved : Bool)
  | get (sockFd : SockFd)
  | free (sockFd : SockFd)

/-- The list and the session on one descriptor after a call. -/
def KeyRun.update (s : KeyRun κ) (sockFd : SockFd) (l : KeyList κ) (session : KeySession κ) :
    KeyRun κ :=
  ⟨l, fun fd => if fd = sockFd then session else s.session fd⟩

/-- A call, if it is the session's turn to make it. What `add_socket` returns is not looked
    at by `client_callback`; a session ends when `get_sock_key` returns `NULL`. -/
def KeyRun.step (freeKey : κ → κ) (s : KeyRun κ) : KeyCall κ → Option (KeyRun κ)
  | .add sockFd key data moved =>
    match s.session sockFd with
    | .idle =>
      (s.list.addSocket sockFd key data moved).map fun r => s.update sockFd r.2 (.added key)
    | _ => none
  | .get sockFd =>
    match s.session sockFd with
    | .added key =>
      match s.list.getSockKey sockFd with
      | some ref => some (s.update sockFd s.list (.holding key ref))
      | none => some (s.update sockFd s.list .idle)
    | _ => none
  | .free sockFd =>
    match s.session sockFd with
    | .idle => none
    | _ => some (s.update sockFd (s.list.freeSocket freeKey sockFd) .idle)

/-- The runs of the sessions, each on its own descriptor. -/
def keyMachine (freeKey : κ → κ) : Machine (KeyRun κ) (KeyCall κ) :=
  .ofFun {s | ∃ memory, s = ⟨initSocketContext memory, fun _ => .idle⟩} (KeyRun.step freeKey)

/-- The list does not grow into another block while a session holds a reference. -/
def NoMove : Machine.Guard (KeyRun κ) (KeyCall κ)
  | s, .add sockFd _ _ moved =>
    moved = true → s.list.length ≤ sockFd.val → ∀ fd, (s.session fd).isHolding = false
  | _, _ => True

/-- Every reference is to the entry of its own session in the block that there is, which
    holds the key that the session added. -/
def ReferencesValid (s : KeyRun κ) : Prop :=
  ∀ (fd : SockFd) (key : κ) (ref : KeyRef), s.session fd = .holding key ref →
    ref = ⟨s.list.block, fd⟩ ∧ fd.val < s.list.length ∧ (s.list.arr fd).sockExists = true ∧
      (s.list.arr fd).keyData = key

/-- What the calls keep. -/
structure KeyInvariant (s : KeyRun κ) : Prop where
  sized : Sized s.list
  idle : ∀ fd, (s.session fd).addedKey = none → s.list.isValidSocket fd = false
  added : ∀ fd key, (s.session fd).addedKey = some key → s.list.isValidSocket fd = true ∧
    (s.list.arr fd).keyData = key
  ref : ∀ (fd : SockFd) (key : κ) (ref : KeyRef), s.session fd = .holding key ref →
    ref = ⟨s.list.block, fd⟩

variable {s s' : KeyRun κ} {freeKey : κ → κ}

theorem isValidSocket_iff : l.isValidSocket sockFd = true ↔
    sockFd.val < l.length ∧ (l.arr sockFd).sockExists = true := by
  rw [KeyList.isValidSocket, Bool.and_eq_true, decide_eq_true_iff]

/-- Two lists agree about a descriptor. -/
structure SameEntry (l l' : KeyList κ) (fd : SockFd) : Prop where
  valid : l'.isValidSocket fd = l.isValidSocket fd
  keyData : l.isValidSocket fd = true → (l'.arr fd).keyData = (l.arr fd).keyData

theorem SameEntry.refl (l : KeyList κ) (fd : SockFd) : SameEntry l l fd := ⟨rfl, fun _ => rfl⟩

/-- `add_socket` changes no entry but its own. -/
theorem Added.sameEntry (h : Added l l' sockFd key moved) {fd : SockFd} (hne : fd ≠ sockFd) :
    SameEntry l l' fd := by
  have hval : fd.val ≠ sockFd.val := fun heq => hne (Fin.ext heq)
  rcases Nat.lt_or_ge fd.val l.length with hlt | hge
  · have hentry := h.others fd hlt hval
    refine ⟨?_, fun _ => congrArg KeySock.keyData hentry⟩
    rw [KeyList.isValidSocket, KeyList.isValidSocket, hentry, decide_eq_true hlt,
      decide_eq_true (hlt.trans_le h.le)]
  · have hinvalid : l.isValidSocket fd = false := by
      rw [KeyList.isValidSocket, decide_eq_false hge.not_gt, Bool.false_and]
    refine ⟨?_, fun hvalid => ?_⟩
    · rw [hinvalid]
      by_contra hvalid
      obtain ⟨hlt, hexists⟩ := isValidSocket_iff.1 (Bool.of_not_eq_false hvalid)
      rw [h.new fd hge hlt hval] at hexists
      cases hexists
    · rw [hinvalid] at hvalid
      cases hvalid

/-- What `free_socket` does. -/
structure Freed (l l' : KeyList κ) (sockFd : SockFd) : Prop where
  sized : Sized l'
  invalid : l'.isValidSocket sockFd = false
  others : ∀ fd, fd ≠ sockFd → SameEntry l l' fd
  block : l'.block = l.block

theorem freeSocket_arr (hvalid : l.isValidSocket sockFd = true) :
    (l.freeSocket freeKey sockFd).arr =
      l.arr.set sockFd ⟨false, freeKey (l.arr sockFd).keyData, (l.arr sockFd).data⟩ := by
  rw [KeyList.freeSocket, if_pos hvalid]

theorem freeSocket_length : (l.freeSocket freeKey sockFd).length = l.length := by
  rw [KeyList.freeSocket]
  split_ifs
  · rfl
  · rfl

theorem freeSocket_block : (l.freeSocket freeKey sockFd).block = l.block := by
  rw [KeyList.freeSocket]
  split_ifs
  · rfl
  · rfl

theorem freeSocket_spec (freeKey : κ → κ) (sockFd : SockFd) (hl : Sized l) :
    Freed l (l.freeSocket freeKey sockFd) sockFd := by
  have hsized : Sized (l.freeSocket freeKey sockFd) := by
    rw [Sized, freeSocket_length]
    exact hl
  by_cases hvalid : l.isValidSocket sockFd = true
  · refine ⟨hsized, ?_, fun fd hne => ?_, freeSocket_block⟩
    · rw [KeyList.isValidSocket, freeSocket_arr hvalid, set_self, Bool.and_false]
    · have hentry : (l.freeSocket freeKey sockFd).arr fd = l.arr fd := by
        rw [freeSocket_arr hvalid]
        exact set_of_ne _ (fun heq => hne (Fin.ext heq)) _
      refine ⟨?_, fun _ => congrArg KeySock.keyData hentry⟩
      rw [KeyList.isValidSocket, KeyList.isValidSocket, hentry, freeSocket_length]
  · have hsame : l.freeSocket freeKey sockFd = l := if_neg hvalid
    rw [hsame] at hsized ⊢
    exact ⟨hsized, Bool.eq_false_of_not_eq_true hvalid, fun fd _ => .refl l fd, rfl⟩

/-- The invariant after a call on one descriptor: the list agrees with the session on it,
    and no other entry changed; a reference that is held is to the same block. -/
theorem KeyInvariant.update (hinv : KeyInvariant s) {session : KeySession κ} (hl : Sized l)
    (hothers : ∀ fd, fd ≠ sockFd → SameEntry s.list l fd)
    (hidle : session.addedKey = none → l.isValidSocket sockFd = false)
    (hadded : ∀ key, session.addedKey = some key →
      l.isValidSocket sockFd = true ∧ (l.arr sockFd).keyData = key)
    (href : ∀ key ref, session = .holding key ref → ref = ⟨l.block, sockFd⟩)
    (hblock : ∀ fd, fd ≠ sockFd → (s.session fd).isHolding = true → l.block = s.list.block) :
    KeyInvariant (s.update sockFd l session) where
  sized := hl
  idle fd hfd := by
    dsimp only [KeyRun.update] at hfd ⊢
    split_ifs at hfd with heq
    · exact heq ▸ hidle hfd
    · rw [(hothers fd heq).valid]
      exact hinv.idle fd hfd
  added fd key hfd := by
    dsimp only [KeyRun.update] at hfd ⊢
    split_ifs at hfd with heq
    · exact heq ▸ hadded key hfd
    · obtain ⟨hvalid, hkey⟩ := hinv.added fd key hfd
      rw [(hothers fd heq).valid, (hothers fd heq).keyData hvalid]
      exact ⟨hvalid, hkey⟩
  ref fd key ref hfd := by
    dsimp only [KeyRun.update] at hfd ⊢
    split_ifs at hfd with heq
    · exact heq ▸ href key ref hfd
    · rw [hblock fd heq (hfd ▸ rfl)]
      exact hinv.ref fd key ref hfd

theorem KeyInvariant.step {call : KeyCall κ} (hinv : KeyInvariant s) (hguard : NoMove s call)
    (h : s.step freeKey call = some s') : KeyInvariant s' := by
  cases call with
  | add sockFd key data moved =>
    rw [KeyRun.step] at h
    cases hsession : s.session sockFd with
    | idle =>
      have hfree := hinv.idle sockFd (congrArg KeySession.addedKey hsession)
      obtain ⟨l, hadd, hadded⟩ := addSocket_spec key data moved hinv.sized hfree
      simp only [hsession, hadd, Option.map_some] at h
      obtain rfl := Option.some_inj.1 h
      refine hinv.update hadded.sized (fun fd hne => hadded.sameEntry hne) nofun
        (fun key' hkey => ?_) nofun fun fd hne hholding => ?_
      · obtain rfl := Option.some_inj.1 hkey
        exact ⟨isValidSocket_iff.2 ⟨hadded.lt, hadded.sockExists⟩, hadded.keyData⟩
      -- References survive in a list that stays in place; when it moves, nobody holds one.
      · rcases hadded.block with hblock | ⟨hmoved, hgrow⟩
        · exact hblock
        · cases hholding.symm.trans (hguard hmoved hgrow fd)
    | added key => simp only [hsession] at h; cases h
    | holding key ref => simp only [hsession] at h; cases h
  | get sockFd =>
    rw [KeyRun.step] at h
    cases hsession : s.session sockFd with
    | added key =>
      obtain ⟨hvalid, hkey⟩ := hinv.added sockFd key (congrArg KeySession.addedKey hsession)
      simp only [hsession, KeyList.getSockKey, hvalid, if_true] at h
      obtain rfl := Option.some_inj.1 h
      refine hinv.update hinv.sized (fun fd _ => .refl _ fd) nofun (fun key' hkey' => ?_)
        (fun key' ref hholding => ?_) fun _ _ _ => rfl
      · exact Option.some_inj.1 hkey' ▸ ⟨hvalid, hkey⟩
      · cases hholding
        rfl
    | idle => simp only [hsession] at h; cases h
    | holding key ref => simp only [hsession] at h; cases h
  | free sockFd =>
    have hfreed := freeSocket_spec freeKey sockFd hinv.sized
    have hupdate : KeyInvariant (s.update sockFd (s.list.freeSocket freeKey sockFd) .idle) :=
      hinv.update hfreed.sized hfreed.others (fun _ => hfreed.invalid) nofun nofun
        fun _ _ _ => hfreed.block
    rw [KeyRun.step] at h
    split at h
    · cases h
    · exact Option.some_inj.1 h ▸ hupdate

theorem keyInvariant_init (memory : Memory (KeySock κ)) :
    KeyInvariant ⟨initSocketContext memory, fun _ => .idle⟩ where
  sized := ⟨2, by decide, rfl⟩
  idle fd _ := by
    by_contra hvalid
    obtain ⟨hlt, hexists⟩ := isValidSocket_iff.1 (Bool.of_not_eq_false hvalid)
    have hclear : ((initSocketContext memory).arr fd).sockExists = false :=
      congrArg KeySock.sockExists (if_pos ⟨Nat.zero_le _, hlt⟩)
    cases hexists.symm.trans hclear
  added := nofun
  ref := nofun

/-- In every run in which the list does not grow into another block while a session holds a
    reference, the references are good. -/
theorem referencesValid_of_reachable (hs : (keyMachine freeKey).Reachable NoMove s) :
    ReferencesValid s := by
  have hinv : KeyInvariant s := by
    refine hs.invariant ?_ ?_
    · rintro _ ⟨memory, rfl⟩
      exact keyInvariant_init memory
    · intro s call s' hinv hguard h
      exact hinv.step hguard h
  intro fd key ref hfd
  obtain ⟨hvalid, hkey⟩ := hinv.added fd key (hfd ▸ rfl)
  obtain ⟨hlt, hexists⟩ := isValidSocket_iff.1 hvalid
  exact ⟨hinv.ref fd key ref hfd, hlt, hexists, hkey⟩

instance : ∀ (s : KeyRun κ) (call : KeyCall κ), Decidable (NoMove s call)
  | _, .add _ _ _ _ => inferInstanceAs (Decidable (_ → _ → ∀ _, _ = _))
  | _, .get _ => .isTrue trivial
  | _, .free _ => .isTrue trivial

/-- The list grows in place, while a session holds a reference. -/
theorem referencesValid_inPlace : ∃ s : KeyRun ℕ, ReferencesValid s ∧
    s.list.getSockKey 3 = some ⟨0, 3⟩ ∧ s.list.length = 8 := by
  have hrun : (Machine.run (Machine.checked NoMove (KeyRun.step fun _ => 0))
      ⟨initSocketContext fun _ => ⟨false, 0, 0⟩, fun _ => .idle⟩
      [.add 3 7 0 false, .get 3, .add 4 8 0 false]).any
      (fun s => s.list.getSockKey 3 = some ⟨0, 3⟩ ∧ s.list.length = 8) = true := by
    decide +kernel
  have hinit : ⟨initSocketContext fun _ => ⟨false, 0, 0⟩, fun _ => .idle⟩ ∈
      (keyMachine fun _ => 0).init := ⟨_, rfl⟩
  obtain ⟨s, hs, hrest⟩ := Machine.exists_of_run hinit hrun
  exact ⟨s, referencesValid_of_reachable hs, of_decide_eq_true hrest⟩

/-- The reference of a session, if it holds one. -/
def KeySession.heldRef : KeySession κ → Option KeyRef
  | holding _ ref => some ref
  | _ => none

/-- The next connection makes the list grow: the reference of the session before it is to
    the block that was freed. -/
theorem not_referencesValid_moved : ∃ s : KeyRun ℕ,
    (keyMachine fun _ => 0).Reachable Machine.anyStep s ∧ ¬ ReferencesValid s := by
  have hrun : (Machine.run (Machine.checked Machine.anyStep (KeyRun.step fun _ => 0))
      ⟨initSocketContext fun _ => ⟨false, 0, 0⟩, fun _ => .idle⟩
      [.add 3 7 0 false, .get 3, .add 4 8 0 true]).any
      (fun s => (s.session 3).heldRef = some ⟨0, 3⟩ ∧ s.list.block = 1) = true := by
    decide +kernel
  have hinit : ⟨initSocketContext fun _ => ⟨false, 0, 0⟩, fun _ => .idle⟩ ∈
      (keyMachine fun _ => 0).init := ⟨_, rfl⟩
  obtain ⟨s, hs, hrest⟩ := Machine.exists_of_run hinit hrun
  obtain ⟨hheld, hblock⟩ := of_decide_eq_true hrest
  refine ⟨s, hs, fun hvalid => ?_⟩
  cases hsession : s.session 3 with
  | idle => rw [hsession] at hheld; cases hheld
  | added key => rw [hsession] at hheld; cases hheld
  | holding key ref =>
    rw [hsession] at hheld
    obtain rfl := Option.some_inj.1 hheld
    have hsame := congrArg KeyRef.block (hvalid 3 key _ hsession).1
    rw [hblock] at hsame
    cases hsame

end OnionRouter.Directory
