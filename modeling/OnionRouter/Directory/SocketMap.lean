import OnionRouter.Directory.SocketContext
import Mathlib.Data.Set.Card

/-!
# The keys of the sockets as a map

What `socket_context.c` is for: a finite map from descriptors to keys and data
(`SocketMap`). The entries of the list that are marked as used are such a map
(`KeyList.entries`), whatever the others hold, and every call does to them what it does to
the map, with the same result.

* `KeyList.call_spec`: one call.
* `faithfulMap_calls`: all calls after `init_socket_context`, in any order.
-/

namespace OnionRouter.Directory

open Lib Memory

variable {κ : Type*}

/-! ## The other calls -/

/-- The pointer `NULL`. -/
def null : ℕ := 0

/-- What a function hands to its callbacks: to `free_key` and to `free_data`. -/
structure Passed (κ : Type*) where
  freeKey : Option κ
  freeData : Option ℕ

namespace KeyList

variable (l : KeyList κ)

/-- `assign_sock_data`. -/
def assignSockData (sockFd : SockFd) (data : ℕ) : Bool × KeyList κ :=
  if l.isValidSocket sockFd then
    (true, { l with arr := l.arr.set sockFd { l.arr sockFd with data := data } })
  else (false, l)

/-- `get_sock_data`. -/
def getSockData (sockFd : SockFd) : ℕ :=
  if l.isValidSocket sockFd then (l.arr sockFd).data else null

/-- `free_sock_data`; `freeData` is whether its argument is not `NULL`. -/
def freeSockData (sockFd : SockFd) (freeData : Bool) : Passed κ × KeyList κ :=
  if freeData = false then (⟨none, none⟩, l)
  else if l.isValidSocket sockFd then
    (⟨none, some (l.arr sockFd).data⟩,
      { l with arr := l.arr.set sockFd { l.arr sockFd with data := null } })
  else (⟨none, none⟩, l)

/-- What `free_socket` hands to its callbacks; `freeData` is whether its argument is not
    `NULL`. -/
def passedByFreeSocket (sockFd : SockFd) (freeData : Bool) : Passed κ :=
  if l.isValidSocket sockFd then
    ⟨some (l.arr sockFd).keyData, if freeData then some (l.arr sockFd).data else none⟩
  else ⟨none, none⟩

/-- `free_socket_context`. -/
def freeSocketContext : Bool × KeyList κ :=
  if l.socksUsed ≠ 0 then (false, l) else (true, { l with length := 0 })

end KeyList

/-- A call of the socket context. -/
inductive ContextCall (κ : Type*)
  | addSocket (sockFd : SockFd) (key : κ) (data : ℕ) (moved : Bool)
  | assignSockData (sockFd : SockFd) (data : ℕ)
  | getSockData (sockFd : SockFd)
  | freeSockData (sockFd : SockFd) (freeData : Bool)
  | getSockKey (sockFd : SockFd)
  | freeSocket (sockFd : SockFd) (freeData : Bool)

/-- The descriptor that a call is about. -/
def ContextCall.sockFd : ContextCall κ → SockFd
  | addSocket sockFd _ _ _ | assignSockData sockFd _ | getSockData sockFd
  | freeSockData sockFd _ | getSockKey sockFd | freeSocket sockFd _ => sockFd

/-- What comes of a call: what it returns, where a key is behind the pointer, or what it hands
    to its callbacks. -/
inductive ContextResult (κ : Type*)
  | done (success : Bool)
  | data (data : ℕ)
  | key (key : Option κ)
  | passed (passed : Passed κ)

/-- A call; `none` when it does not return. -/
def KeyList.call (freeKey : κ → κ) (l : KeyList κ) :
    ContextCall κ → Option (ContextResult κ × KeyList κ)
  | .addSocket sockFd key data moved =>
    (l.addSocket sockFd key data moved).map fun r => (.done r.1, r.2)
  | .assignSockData sockFd data =>
    some (.done (l.assignSockData sockFd data).1, (l.assignSockData sockFd data).2)
  | .getSockData sockFd => some (.data (l.getSockData sockFd), l)
  | .freeSockData sockFd freeData =>
    some (.passed (l.freeSockData sockFd freeData).1, (l.freeSockData sockFd freeData).2)
  | .getSockKey sockFd =>
    some (.key ((l.getSockKey sockFd).map fun ref => (l.arr ref.index).keyData), l)
  | .freeSocket sockFd freeData =>
    some (.passed (l.passedByFreeSocket sockFd freeData), l.freeSocket freeKey sockFd)

/-- Calls one after the other. -/
def KeyList.calls (freeKey : κ → κ) (l : KeyList κ) :
    List (ContextCall κ) → Option (List (ContextResult κ) × KeyList κ)
  | [] => some ([], l)
  | c :: cs => do
    let (result, l) ← l.call freeKey c
    let (results, l) ← l.calls freeKey cs
    return (result :: results, l)

/-! ## The map -/

/-- The key and the data of the descriptors that are present. -/
abbrev SocketMap (κ : Type*) := SockFd → Option (κ × ℕ)

namespace SocketMap

variable (f : SocketMap κ)

/-- What a call does to the map. -/
def call : ContextCall κ → ContextResult κ × SocketMap κ
  | .addSocket sockFd key data _ =>
    match f sockFd with
    | some _ => (.done false, f)
    | none => (.done true, Function.update f sockFd (some (key, data)))
  | .assignSockData sockFd data =>
    match f sockFd with
    | some (key, _) => (.done true, Function.update f sockFd (some (key, data)))
    | none => (.done false, f)
  | .getSockData sockFd => (.data (((f sockFd).map Prod.snd).getD null), f)
  | .freeSockData _ false => (.passed ⟨none, none⟩, f)
  | .freeSockData sockFd true =>
    match f sockFd with
    | some (key, data) => (.passed ⟨none, some data⟩, Function.update f sockFd (some (key, null)))
    | none => (.passed ⟨none, none⟩, f)
  | .getSockKey sockFd => (.key ((f sockFd).map Prod.fst), f)
  | .freeSocket sockFd freeData =>
    match f sockFd with
    | some (key, data) =>
      (.passed ⟨some key, if freeData then some data else none⟩, Function.update f sockFd none)
    | none => (.passed ⟨none, none⟩, f)

/-- Calls one after the other. -/
def calls : SocketMap κ → List (ContextCall κ) → List (ContextResult κ) × SocketMap κ
  | f, [] => ([], f)
  | f, c :: cs => ((f.call c).1 :: ((f.call c).2.calls cs).1, ((f.call c).2.calls cs).2)

/-- The descriptors that are present. -/
def present : Set SockFd := {fd | (f fd).isSome}

/-- A call changes the map at its own descriptor only. -/
theorem call_of_ne (c : ContextCall κ) {fd : SockFd} (hne : fd ≠ c.sockFd) :
    (f.call c).2 fd = f fd := by
  cases c with
  | addSocket sockFd key data moved =>
    rw [call]
    split
    · rfl
    · exact Function.update_of_ne hne _ _
  | assignSockData sockFd data =>
    rw [call]
    split
    · exact Function.update_of_ne hne _ _
    · rfl
  | getSockData sockFd => rfl
  | freeSockData sockFd freeData =>
    cases freeData with
    | false => rfl
    | true =>
      rw [call]
      split
      · exact Function.update_of_ne hne _ _
      · rfl
  | getSockKey sockFd => rfl
  | freeSocket sockFd freeData =>
    rw [call]
    split
    · exact Function.update_of_ne hne _ _
    · rfl

theorem present_update_some (fd : SockFd) (entry : κ × ℕ) :
    present (Function.update f fd (some entry)) = insert fd f.present := by
  ext fd'
  rcases eq_or_ne fd' fd with rfl | hne
  · simp [present]
  · simp [present, hne]

theorem present_update_none (fd : SockFd) :
    present (Function.update f fd none) = f.present \ {fd} := by
  ext fd'
  rcases eq_or_ne fd' fd with rfl | hne
  · simp [present]
  · simp [present, hne]

theorem ncard_present_le : f.present.ncard ≤ 2 ^ 31 := by
  refine (Set.ncard_le_ncard (Set.subset_univ f.present)).trans_eq ?_
  rw [Set.ncard_univ, Nat.card_eq_fintype_card, Fintype.card_fin]

end SocketMap

/-! ## The entries of the list -/

/-- What an entry holds, if it is used. -/
def KeySock.entry (x : KeySock κ) : Option (κ × ℕ) :=
  if x.sockExists then some (x.keyData, x.data) else none

/-- The map that a list is. -/
def KeyList.entries (l : KeyList κ) : SocketMap κ :=
  fun fd => if fd.val < l.length then (l.arr fd).entry else none

variable {l l' : KeyList κ} {sockFd : SockFd}

theorem isValidSocket_eq (l : KeyList κ) (sockFd : SockFd) :
    l.isValidSocket sockFd = (l.entries sockFd).isSome := by
  rw [KeyList.isValidSocket, KeyList.entries]
  split_ifs with hlt
  · rw [decide_eq_true hlt, Bool.true_and, KeySock.entry]
    cases (l.arr sockFd).sockExists <;> rfl
  · rw [decide_eq_false hlt, Bool.false_and, Option.isSome_none]

/-- An entry that is used is in the list, and holds what the map has. -/
theorem entries_eq_some {key : κ} {data : ℕ} : l.entries sockFd = some (key, data) ↔
    sockFd.val < l.length ∧ (l.arr sockFd).sockExists = true ∧
      (l.arr sockFd).keyData = key ∧ (l.arr sockFd).data = data := by
  rw [KeyList.entries, KeySock.entry]
  split_ifs with hlt hexists
  · simp [hlt, hexists]
  · simp [hexists]
  · simp [hlt]

/-- A write to one entry of the list. -/
theorem entries_set (hlt : sockFd.val < l.length) (x : KeySock κ) (socksUsed : UInt64) :
    KeyList.entries { l with arr := l.arr.set sockFd x, socksUsed := socksUsed } =
      Function.update l.entries sockFd x.entry := by
  funext fd
  simp only [KeyList.entries]
  rcases eq_or_ne fd sockFd with rfl | hne
  · rw [Function.update_self, if_pos hlt, set_self]
  · rw [Function.update_of_ne hne, set_of_ne _ fun heq => hne (Fin.ext heq), KeyList.entries]

/-- What `resize_key_list` adds is not used, whatever it holds. -/
theorem entries_resizeKeyList (hl : Sized l) (sockFd : SockFd) (moved : Bool) :
    ∃ l', l.resizeKeyList sockFd moved = some l' ∧ Sized l' ∧ sockFd.val < l'.length ∧
      l'.socksUsed = l.socksUsed ∧ l'.entries = l.entries := by
  obtain ⟨k, hk, hlength⟩ := hl
  obtain ⟨j, hkj, hj, hgrown, hlt⟩ := growLength_spec sockFd.isLt hk (show 31 < k + 65 by omega)
  have hle : l.length ≤ 2 ^ j := hlength ▸ Nat.pow_le_pow_right (by decide) hkj
  rw [KeyList.resizeKeyList, hlength, hgrown, Option.map_some, ← hlength]
  refine ⟨_, rfl, ⟨j, hj, rfl⟩, hlt, rfl, ?_⟩
  funext fd
  simp only [KeyList.entries, clearEntries]
  rcases Nat.lt_or_ge fd.val l.length with hold | hnew
  · rw [if_pos (hold.trans_le hle), if_neg fun h => hold.not_ge h.1, if_pos hold]
  · rw [if_neg hnew.not_gt]
    split_ifs with hfd hcleared
    · rfl
    · exact absurd ⟨hnew, hfd⟩ hcleared
    · rfl

/-- The lists of the calls: `socks_used` counts the descriptors that are present. -/
structure Counted (l : KeyList κ) : Prop where
  sized : Sized l
  socksUsed : l.socksUsed.toNat = l.entries.present.ncard

/-! ## The calls -/

variable (hl : Counted l)

include hl

/-- A write to an entry that is used. -/
theorem Counted.update {entry : κ × ℕ} (hentry : l.entries sockFd = some entry) (key : κ)
    (data : ℕ) :
    Counted { l with arr := l.arr.set sockFd ⟨true, key, data⟩ } ∧
      KeyList.entries { l with arr := l.arr.set sockFd ⟨true, key, data⟩ } =
        Function.update l.entries sockFd (some (key, data)) := by
  have hset := entries_set (entries_eq_some.1 hentry).1 ⟨true, key, data⟩ l.socksUsed
  have hmem : sockFd ∈ l.entries.present := Option.isSome_iff_exists.2 ⟨entry, hentry⟩
  refine ⟨⟨hl.sized, ?_⟩, hset⟩
  rw [hset, KeySock.entry, if_pos rfl, SocketMap.present_update_some, Set.insert_eq_of_mem hmem]
  exact hl.socksUsed

/-- A new entry. -/
theorem Counted.insert (hlt : sockFd.val < l.length) (hentry : l.entries sockFd = none) (key : κ)
    (data : ℕ) :
    Counted { l with arr := l.arr.set sockFd ⟨true, key, data⟩, socksUsed := l.socksUsed + 1 } ∧
      KeyList.entries { l with
          arr := l.arr.set sockFd ⟨true, key, data⟩, socksUsed := l.socksUsed + 1 } =
        Function.update l.entries sockFd (some (key, data)) := by
  have hset := entries_set hlt ⟨true, key, data⟩ (l.socksUsed + 1)
  have hnot : sockFd ∉ l.entries.present := Option.not_isSome_iff_eq_none.2 hentry
  have hle := l.entries.ncard_present_le
  refine ⟨⟨hl.sized, ?_⟩, hset⟩
  rw [hset, KeySock.entry, if_pos rfl, SocketMap.present_update_some,
    Set.ncard_insert_of_notMem hnot, UInt64.toNat_add, UInt64.toNat_one, hl.socksUsed]
  exact Nat.mod_eq_of_lt (by omega)

/-- An entry that is not used any more, whatever it still holds. -/
theorem Counted.erase {entry : κ × ℕ} (hentry : l.entries sockFd = some entry) (key : κ)
    (data : ℕ) :
    Counted { l with
        arr := l.arr.set sockFd ⟨false, key, data⟩, socksUsed := l.socksUsed - 1 } ∧
      KeyList.entries { l with
          arr := l.arr.set sockFd ⟨false, key, data⟩, socksUsed := l.socksUsed - 1 } =
        Function.update l.entries sockFd none := by
  have hset := entries_set (entries_eq_some.1 hentry).1 ⟨false, key, data⟩ (l.socksUsed - 1)
  have hmem : sockFd ∈ l.entries.present := Option.isSome_iff_exists.2 ⟨entry, hentry⟩
  have hpos : 0 < l.entries.present.ncard := (Set.ncard_pos).2 ⟨sockFd, hmem⟩
  have hone : (1 : UInt64) ≤ l.socksUsed := by
    rw [UInt64.le_iff_toNat_le, UInt64.toNat_one, hl.socksUsed]
    exact hpos
  refine ⟨⟨hl.sized, ?_⟩, hset⟩
  rw [hset, KeySock.entry, if_neg Bool.false_ne_true, SocketMap.present_update_none,
    Set.ncard_sdiff_singleton_of_mem hmem, UInt64.toNat_sub_of_le _ _ hone, UInt64.toNat_one,
    hl.socksUsed]

omit hl in
/-- What the calls know of a descriptor. -/
theorem entry_of_valid (hvalid : l.isValidSocket sockFd = true) :
    l.entries sockFd = some ((l.arr sockFd).keyData, (l.arr sockFd).data) ∧
      l.arr sockFd = ⟨true, (l.arr sockFd).keyData, (l.arr sockFd).data⟩ := by
  obtain ⟨hlt, hexists⟩ := isValidSocket_iff.1 hvalid
  exact ⟨entries_eq_some.2 ⟨hlt, hexists, rfl, rfl⟩, by rw [← hexists]⟩

omit hl in
theorem entry_of_not_valid (hvalid : ¬ l.isValidSocket sockFd = true) : l.entries sockFd = none := by
  rw [isValidSocket_eq] at hvalid
  exact Option.not_isSome_iff_eq_none.1 hvalid

/-- `add_socket`, for a list that has room. -/
theorem Counted.useSocket (hlt : sockFd.val < l.length) (key : κ) (data : ℕ) (moved : Bool) :
    ∃ l', l.useSocket sockFd key data = ((l.entries sockFd).isNone, l') ∧ Counted l' ∧
      (l.entries.call (.addSocket sockFd key data moved)) =
        (.done (l.entries sockFd).isNone, l'.entries) := by
  rw [SocketMap.call]
  by_cases hvalid : l.isValidSocket sockFd = true
  · obtain ⟨hentry, -⟩ := entry_of_valid hvalid
    rw [KeyList.useSocket, if_pos (isValidSocket_iff.1 hvalid).2, hentry]
    exact ⟨l, rfl, hl, rfl⟩
  · have hentry := entry_of_not_valid hvalid
    have hfree : (l.arr sockFd).sockExists = false :=
      Bool.eq_false_of_not_eq_true fun hexists => hvalid (isValidSocket_iff.2 ⟨hlt, hexists⟩)
    obtain ⟨hcounted, hset⟩ := hl.insert hlt hentry key data
    rw [useSocket_eq hfree, hentry]
    exact ⟨_, rfl, hcounted, by rw [hset]; rfl⟩

/-- A call does to the entries what it does to the map. -/
theorem KeyList.call_spec (freeKey : κ → κ) (c : ContextCall κ) :
    ∃ l', l.call freeKey c = some ((l.entries.call c).1, l') ∧ Counted l' ∧
      l'.entries = (l.entries.call c).2 := by
  cases c with
  | addSocket sockFd key data moved =>
    rw [KeyList.call, KeyList.addSocket]
    by_cases hgrow : l.length ≤ sockFd.val
    -- The new entries are not used, so the list is the same map with room.
    · obtain ⟨l₁, hresize, hsized, hlt, hused, hentries⟩ :=
        entries_resizeKeyList hl.sized sockFd moved
      have hl₁ : Counted l₁ := ⟨hsized, by rw [hused, hentries, hl.socksUsed]⟩
      obtain ⟨l', huse, hl', hcall⟩ := hl₁.useSocket hlt key data moved
      rw [if_pos hgrow, hresize, Option.map_some, Option.map_some, huse, ← hentries, hcall]
      exact ⟨l', rfl, hl', rfl⟩
    · obtain ⟨l', huse, hl', hcall⟩ := hl.useSocket (Nat.lt_of_not_le hgrow) key data moved
      rw [if_neg hgrow, Option.map_some, huse, hcall]
      exact ⟨l', rfl, hl', rfl⟩
  | assignSockData sockFd data =>
    rw [KeyList.call, KeyList.assignSockData, SocketMap.call]
    by_cases hvalid : l.isValidSocket sockFd = true
    · obtain ⟨hentry, harr⟩ := entry_of_valid hvalid
      obtain ⟨hcounted, hset⟩ := hl.update hentry (l.arr sockFd).keyData data
      rw [if_pos hvalid, hentry, harr]
      exact ⟨_, rfl, hcounted, hset⟩
    · rw [if_neg hvalid, entry_of_not_valid hvalid]
      exact ⟨l, rfl, hl, rfl⟩
  | getSockData sockFd =>
    rw [KeyList.call, KeyList.getSockData, SocketMap.call]
    by_cases hvalid : l.isValidSocket sockFd = true
    · rw [if_pos hvalid, (entry_of_valid hvalid).1]
      exact ⟨l, rfl, hl, rfl⟩
    · rw [if_neg hvalid, entry_of_not_valid hvalid]
      exact ⟨l, rfl, hl, rfl⟩
  | freeSockData sockFd freeData =>
    cases freeData with
    | false => exact ⟨l, rfl, hl, rfl⟩
    | true =>
      rw [KeyList.call, KeyList.freeSockData, SocketMap.call, if_neg Bool.true_eq_false_eq_False]
      by_cases hvalid : l.isValidSocket sockFd = true
      · obtain ⟨hentry, harr⟩ := entry_of_valid hvalid
        obtain ⟨hcounted, hset⟩ := hl.update hentry (l.arr sockFd).keyData null
        rw [if_pos hvalid, hentry, harr]
        exact ⟨_, rfl, hcounted, hset⟩
      · rw [if_neg hvalid, entry_of_not_valid hvalid]
        exact ⟨l, rfl, hl, rfl⟩
  | getSockKey sockFd =>
    rw [KeyList.call, KeyList.getSockKey, SocketMap.call]
    by_cases hvalid : l.isValidSocket sockFd = true
    · rw [if_pos hvalid, (entry_of_valid hvalid).1]
      exact ⟨l, rfl, hl, rfl⟩
    · rw [if_neg hvalid, entry_of_not_valid hvalid]
      exact ⟨l, rfl, hl, rfl⟩
  | freeSocket sockFd freeData =>
    rw [KeyList.call, KeyList.passedByFreeSocket, KeyList.freeSocket, SocketMap.call]
    by_cases hvalid : l.isValidSocket sockFd = true
    · obtain ⟨hentry, -⟩ := entry_of_valid hvalid
      obtain ⟨hcounted, hset⟩ := hl.erase hentry (freeKey (l.arr sockFd).keyData) (l.arr sockFd).data
      rw [if_pos hvalid, if_pos hvalid, hentry]
      exact ⟨_, rfl, hcounted, hset⟩
    · rw [if_neg hvalid, if_neg hvalid, entry_of_not_valid hvalid]
      exact ⟨l, rfl, hl, rfl⟩

/-- Calls one after the other. By induction on the calls. -/
theorem KeyList.calls_spec (freeKey : κ → κ) (cs : List (ContextCall κ)) :
    ∃ l', l.calls freeKey cs = some ((l.entries.calls cs).1, l') ∧ Counted l' ∧
      l'.entries = (l.entries.calls cs).2 := by
  induction cs generalizing l with
  | nil => exact ⟨l, rfl, hl, rfl⟩
  | cons c cs ih =>
    obtain ⟨l₁, hcall, hl₁, hentries⟩ := KeyList.call_spec hl freeKey c
    obtain ⟨l', hcalls, hl', hentries'⟩ := ih hl₁
    rw [hentries] at hcalls hentries'
    refine ⟨l', ?_, hl', hentries'⟩
    rw [KeyList.calls, hcall]
    simp only [Option.bind_eq_bind, Option.bind_some, hcalls]
    rfl

omit hl

/-! ## The socket context -/

theorem counted_initSocketContext (memory : Memory (KeySock κ)) :
    Counted (initSocketContext memory) ∧ (initSocketContext memory).entries = fun _ => none := by
  have hentries : (initSocketContext memory).entries = fun _ => none := by
    funext fd
    rw [KeyList.entries]
    split_ifs with hlt
    · have hfree : ((initSocketContext memory).arr fd).sockExists = false :=
        congrArg KeySock.sockExists (if_pos ⟨Nat.zero_le _, hlt⟩)
      rw [KeySock.entry, hfree, if_neg Bool.false_ne_true]
    · rfl
  have hnone : SocketMap.present (fun _ => (none : Option (κ × ℕ))) = ∅ :=
    Set.eq_empty_of_forall_notMem fun fd => Bool.false_ne_true
  refine ⟨⟨⟨2, by decide, rfl⟩, ?_⟩, hentries⟩
  rw [hentries, hnone, Set.ncard_empty]
  rfl

/-- The list is the map `f`. -/
structure FaithfulMap (freeKey : κ → κ) (l : KeyList κ) (f : SocketMap κ) : Prop where
  entries : l.entries = f
  /-- A lookup gives what was stored last. -/
  getSockKey : ∀ fd, (l.getSockKey fd).map (fun ref => (l.arr ref.index).keyData) =
    (f fd).map Prod.fst
  getSockData : ∀ fd, l.getSockData fd = ((f fd).map Prod.snd).getD null
  /-- `add_socket` fails for a descriptor that is present, and changes nothing. -/
  addPresent : ∀ fd key data moved, (f fd).isSome →
    l.addSocket fd key data moved = some (false, l)
  addAbsent : ∀ fd key data moved, f fd = none → ∃ l',
    l.addSocket fd key data moved = some (true, l') ∧
      l'.entries = Function.update f fd (some (key, data))
  /-- Growing the list changes no entry, and adds none. -/
  resize : ∀ fd moved, ∃ l', l.resizeKeyList fd moved = some l' ∧ fd.val < l'.length ∧
    l'.entries = f
  /-- A call changes nothing for other descriptors. -/
  others : ∀ c, ∃ result l', l.call freeKey c = some (result, l') ∧
    ∀ fd, fd ≠ c.sockFd → l'.entries fd = f fd
  socksUsed : l.socksUsed.toNat = f.present.ncard
  freeSocketContext : l.freeSocketContext.1 = true ↔ ∀ fd, f fd = none
  freeSocketContextFails : l.freeSocketContext.1 = false → l.freeSocketContext.2 = l

theorem Counted.freeSocketContext (hl : Counted l) :
    l.freeSocketContext.1 = true ↔ ∀ fd, l.entries fd = none := by
  have hzero : l.socksUsed = 0 ↔ l.entries.present = ∅ := by
    rw [← UInt64.toNat_inj, hl.socksUsed, UInt64.toNat_zero, Set.ncard_eq_zero]
  have hnone : l.entries.present = ∅ ↔ ∀ fd, l.entries fd = none := by
    rw [Set.eq_empty_iff_forall_notMem]
    exact forall_congr' fun fd => Option.not_isSome_iff_eq_none
  rw [← hnone, ← hzero, KeyList.freeSocketContext]
  by_cases hused : l.socksUsed = 0
  · rw [if_neg (not_not.2 hused)]
    exact iff_of_true rfl hused
  · rw [if_pos hused]
    exact iff_of_false Bool.false_ne_true hused

theorem Counted.faithfulMap (hl : Counted l) (freeKey : κ → κ) :
    FaithfulMap freeKey l l.entries where
  entries := rfl
  getSockKey fd := by
    obtain ⟨l', hcall, -⟩ := KeyList.call_spec hl freeKey (.getSockKey fd)
    exact ContextResult.key.inj (Prod.mk.inj (Option.some_inj.1 hcall)).1
  getSockData fd := by
    obtain ⟨l', hcall, -⟩ := KeyList.call_spec hl freeKey (.getSockData fd)
    exact ContextResult.data.inj (Prod.mk.inj (Option.some_inj.1 hcall)).1
  addPresent fd key data moved hpresent := by
    rw [← isValidSocket_eq] at hpresent
    obtain ⟨hlt, hexists⟩ := isValidSocket_iff.1 hpresent
    rw [KeyList.addSocket, if_neg hlt.not_ge, KeyList.useSocket, if_pos hexists]
  addAbsent fd key data moved habsent := by
    obtain ⟨l', hcall, -, hentries⟩ := KeyList.call_spec hl freeKey (.addSocket fd key data moved)
    rw [SocketMap.call, habsent] at hcall hentries
    obtain ⟨⟨success, l''⟩, hadd, heq⟩ := Option.map_eq_some_iff.1 hcall
    obtain ⟨hsuccess, rfl⟩ := Prod.mk.inj heq
    obtain rfl := ContextResult.done.inj hsuccess
    exact ⟨l'', hadd, hentries⟩
  resize fd moved := by
    obtain ⟨l', hresize, -, hlt, -, hentries⟩ := entries_resizeKeyList hl.sized fd moved
    exact ⟨l', hresize, hlt, hentries⟩
  others c := by
    obtain ⟨l', hcall, -, hentries⟩ := KeyList.call_spec hl freeKey c
    exact ⟨_, l', hcall, fun fd hne => hentries ▸ l.entries.call_of_ne c hne⟩
  socksUsed := hl.socksUsed
  freeSocketContext := hl.freeSocketContext
  freeSocketContextFails hfails := by
    rw [KeyList.freeSocketContext] at hfails ⊢
    split_ifs at hfails ⊢
    rfl

/-- After any calls, the list is the map that the calls make of an empty one, and the calls had
    the same results. -/
theorem faithfulMap_calls (freeKey : κ → κ) (memory : Memory (KeySock κ))
    (cs : List (ContextCall κ)) :
    ∃ l, (initSocketContext memory).calls freeKey cs =
        some ((SocketMap.calls (fun _ => none) cs).1, l) ∧
      FaithfulMap freeKey l (SocketMap.calls (fun _ => none) cs).2 := by
  obtain ⟨hinit, hnone⟩ := counted_initSocketContext memory
  obtain ⟨l, hcalls, hl, hentries⟩ := KeyList.calls_spec hinit freeKey cs
  rw [hnone] at hcalls hentries
  exact ⟨l, hcalls, hentries ▸ hl.faithfulMap freeKey⟩

end OnionRouter.Directory
