import OnionRouter.Lib.CString
import Mathlib.Logic.Function.Basic

/-!
# The server configuration

`fetch_server_config.c`: a text of lines `server=...` and `port=...`. `str_to_metadata` goes
through the lines of a copy of the text. A line that begins with the name of a key gives its
value from two characters behind the name on, whatever the first one of them is: when it is
the end of the line, the value is the line behind it.

* `metadataLoop_cons_iff`: one line, of whatever kind.
* `metadataLoop_iff`: from any line on, the loop finds the values of the grammar exactly when
  the text is well formed from there on.
* `matchesGrammar_iff`: so for the whole text.
-/

namespace OnionRouter.Config

open Lib Memory

/-! ## The parser -/

/-- The newline. -/
def newline : UInt8 := 10

/-- The keys, each a field of `server_config_metadata_t`. -/
inductive Key
  | server
  | port
  deriving DecidableEq

/-- The name of a key, in ASCII. -/
def Key.name : Key → List UInt8
  | server => [115, 101, 114, 118, 101, 114]
  | port => [112, 111, 114, 116]

/-- A string that `clone_str` made, and where the original of it is. -/
structure Clone where
  start : ℕ
  text : List UInt8
  deriving DecidableEq

/-- `clone_str`, of the string at `off`. -/
def cloneStr (m : Memory UInt8) (size off : ℕ) : Checked Clone := do
  let length ← strlen m size off
  return ⟨off, m.read off length⟩

/-- A `server_config_metadata_t`, by its fields. -/
abbrev Metadata := Key → Option Clone

/-- The branch of `str_to_metadata` that is taken at `iter`, by its key. -/
def keyAt (m : Memory UInt8) (size iter : ℕ) (result : Metadata) : List Key → Checked (Option Key)
  | [] => return none
  | key :: keys => do
    let same ← memcmp m size iter key.name
    if same ∧ result key = none then return some key
    else keyAt m size iter result keys

/-- The loop of `str_to_metadata`, with the rounds that are left, in a copy of `size` bytes of
    a text of `length` bytes. -/
def metadataLoop (m : Memory UInt8) (size length : ℕ) : ℕ → ℕ → Metadata → Checked Metadata
  | 0, _, _ => .error .unfinished
  | rounds + 1, iter, result =>
    if iter < length then do
      match ← keyAt m size iter result [.server, .port] with
      | some key =>
        -- The `sizeof` of a literal counts its terminator.
        let iter := iter + (key.name.length + 1)
        let value ← cloneStr m size iter
        let n ← strlen m size iter
        metadataLoop m size length rounds (iter + n + 1) (Function.update result key (some value))
      | none =>
        let n ← strlen m size iter
        metadataLoop m size length rounds (iter + n + 1) result
    else return result

/-- Replacing the newlines of the copy by terminators. -/
def endLines (m : Memory UInt8) (length : ℕ) : Memory UInt8 :=
  fun i => if i < length ∧ m i = newline then 0 else m i

/-- What `file_to_string` reads, whose length is an `int`, if there is no zero byte in it. -/
structure ConfigText where
  bytes : List UInt8
  noNul : 0 ∉ bytes
  length_lt : bytes.length < 2 ^ 31

/-- The `clone_str` of a text, in `memory`. -/
def ConfigText.copy (memory : Memory UInt8) (text : ConfigText) : Memory UInt8 :=
  memory.write 0 (text.bytes ++ [0])

/-- `str_to_metadata`, which copies the text to `memory`. A round goes on by a byte at
    least. -/
def strToMetadata (memory : Memory UInt8) (text : ConfigText) : Checked Metadata := do
  let copy := text.copy memory
  let size := text.bytes.length + 1
  let n ← strlen copy size 0
  let length := n % 2 ^ 32
  metadataLoop (endLines copy length) size length (length + 2) 0 fun _ => none

/-! ## The grammar -/

/-- What a line for a key begins with: its name and `=`. -/
def Key.assignment (key : Key) : List UInt8 := key.name ++ [61]

/-- The text behind the `=` of the first line for a key, of lines from `off` on. -/
def valueIn (key : Key) : ℕ → List (List UInt8) → Option Clone
  | _, [] => none
  | off, line :: lines =>
    if key.assignment <+: line then
      some ⟨off + key.assignment.length, line.drop key.assignment.length⟩
    else valueIn key (off + line.length + 1) lines

/-- The lines of a text. -/
def ConfigText.lines (text : ConfigText) : List (List UInt8) := text.bytes.splitOn newline

/-- The parser ends, reads nothing outside of its copy of the text, and sets each field to
    that piece of the text. -/
def MatchesGrammar (memory : Memory UInt8) (text : ConfigText) : Prop :=
  strToMetadata memory text = .ok fun key => valueIn key 0 text.lines

/-- `MatchesGrammar`, without where the pieces are. -/
def ValuesMatch (memory : Memory UInt8) (text : ConfigText) : Prop :=
  ∃ result, strToMetadata memory text = .ok result ∧
    ∀ key, (result key).map Clone.text = (valueIn key 0 text.lines).map Clone.text

/-- The first line that begins with the name of a key is a line for the key. -/
def KeyFirst (key : Key) (lines : List (List UInt8)) : Prop :=
  ∀ line ∈ lines.find? (key.name <+: ·), key.assignment <+: line

/-- From the start of every line on, unless the text ends there, there are the bytes that
    `memcmp` compares with `"server"`. -/
def HasRoom (lines : List (List UInt8)) : Prop :=
  ∀ rest, rest <:+ lines → 1 < linesSize rest → Key.server.name.length ≤ linesSize rest

/-- The texts that the parser is made for. -/
structure WellFormed (text : ConfigText) : Prop where
  keyFirst : ∀ key, KeyFirst key text.lines
  room : HasRoom text.lines

/-! ## One line -/

variable {m : Memory UInt8} {size off length rounds : ℕ} {line : List UInt8}
  {lines : List (List UInt8)} {result result' : Metadata} {key : Key}

theorem zero_notMem_name (key : Key) : 0 ∉ key.name := by cases key <;> decide

theorem length_name_le (key : Key) : key.name.length ≤ Key.server.name.length := by
  cases key <;> decide

theorem length_assignment (key : Key) : key.assignment.length = key.name.length + 1 :=
  List.length_append

theorem begins_of_assignment (h : key.assignment <+: line) : key.name <+: line :=
  (List.prefix_append _ _).trans h

/-- A line begins with one name at most. -/
theorem eq_of_begins {key' : Key} (h : key.name <+: line) (h' : key'.name <+: line) :
    key = key' := by
  have hfirst := List.prefix_of_prefix_length_le h h'
  have hfirst' := List.prefix_of_prefix_length_le h' h
  cases key <;> cases key'
  · rfl
  · exact absurd (hfirst' (by decide)) (by decide)
  · exact absurd (hfirst (by decide)) (by decide)
  · rfl

theorem cloneStr_of_stringAt (h : StringAt m size off line) :
    cloneStr m size off = .ok ⟨off, line⟩ := by
  rw [cloneStr, h.strlen, Checked.ok_bind, h.read]
  rfl

/-- What the line at `off` begins with decides which branch is taken. -/
theorem keyAt_spec (h : StringAt m size off line)
    (hroom : off + Key.server.name.length ≤ size) (result : Metadata) (keys : List Key) :
    (∃ key, keyAt m size off result keys = .ok (some key) ∧ key.name <+: line) ∨
      keyAt m size off result keys = .ok none ∧
        ∀ key ∈ keys, key.name <+: line → result key ≠ none := by
  induction keys with
  | nil => exact .inr ⟨rfl, fun _ hmem => absurd hmem List.not_mem_nil⟩
  | cons key keys ih =>
    have hsame : memcmp m size off key.name = .ok (key.name <+: line) :=
      h.memcmp (zero_notMem_name key) ((Nat.add_le_add_left (length_name_le key) off).trans hroom)
    rw [keyAt, hsame, Checked.ok_bind]
    split_ifs with htaken
    · exact .inl ⟨key, rfl, of_decide_eq_true htaken.1⟩
    · refine ih.imp_right fun ⟨hnone, hkeys⟩ => ⟨hnone, fun key' hmem hprefix hunset => ?_⟩
      rcases List.mem_cons.1 hmem with rfl | hmem
      · exact htaken ⟨decide_eq_true hprefix, hunset⟩
      · exact hkeys key' hmem hprefix hunset

/-- A branch is taken for a field that is not set yet. -/
theorem eq_none_of_keyAt {keys : List Key} (h : keyAt m size off result keys = .ok (some key)) :
    result key = none := by
  induction keys with
  | nil => cases h
  | cons key' keys ih =>
    obtain ⟨same, -, h⟩ := Checked.bind_eq_ok.1 h
    split_ifs at h with hsame
    · obtain rfl := Option.some_inj.1 (Except.ok.inj h)
      exact hsame.2
    · exact ih h

/-! ## Rounds of the loop -/

/-- A field that is set stays as it is. -/
theorem eq_some_of_metadataLoop {value : Clone} (hset : result key = some value)
    (h : metadataLoop m size length rounds off result = .ok result') : result' key = some value := by
  induction rounds generalizing off result with
  | zero => cases h
  | succ rounds ih =>
    rw [metadataLoop] at h
    split_ifs at h
    · obtain ⟨taken, htaken, h⟩ := Checked.bind_eq_ok.1 h
      cases taken with
      | some key' =>
        obtain ⟨_, -, h⟩ := Checked.bind_eq_ok.1 h
        obtain ⟨_, -, h⟩ := Checked.bind_eq_ok.1 h
        refine ih ?_ h
        rw [Function.update_of_ne, hset]
        rintro rfl
        rw [eq_none_of_keyAt htaken] at hset
        cases hset
      | none =>
        obtain ⟨_, -, h⟩ := Checked.bind_eq_ok.1 h
        exact ih hset h
    · obtain rfl := Except.ok.inj h
      exact hset

/-- Where the value of a branch that is taken starts, whatever the line is. -/
theorem start_of_keyAt (hoff : off < length)
    (hkey : keyAt m size off result [.server, .port] = .ok (some key))
    (h : metadataLoop m size length (rounds + 1) off result = .ok result') :
    ∃ text, result' key = some ⟨off + key.assignment.length, text⟩ := by
  rw [metadataLoop, if_pos hoff, hkey, Checked.ok_bind] at h
  obtain ⟨value, hvalue, h⟩ := Checked.bind_eq_ok.1 h
  obtain ⟨_, -, h⟩ := Checked.bind_eq_ok.1 h
  obtain ⟨n, -, hvalue⟩ := Checked.bind_eq_ok.1 hvalue
  obtain rfl := Except.ok.inj hvalue
  rw [length_assignment]
  exact ⟨_, eq_some_of_metadataLoop (Function.update_self ..) h⟩

/-- A line for a key. -/
theorem metadataLoop_of_assignment (hoff : off < length) (hline : StringAt m size off line)
    (hkey : keyAt m size off result [.server, .port] = .ok (some key))
    (h : key.assignment <+: line) :
    metadataLoop m size length (rounds + 1) off result =
      metadataLoop m size length rounds (off + line.length + 1) (Function.update result key
        (some ⟨off + key.assignment.length, line.drop key.assignment.length⟩)) := by
  have hvalue := hline.drop h.length_le
  have hnext : off + key.assignment.length + (line.drop key.assignment.length).length + 1 =
      off + line.length + 1 := by
    rw [List.length_drop, Nat.add_assoc off, Nat.add_sub_cancel' h.length_le]
  rw [metadataLoop, if_pos hoff, hkey, Checked.ok_bind]
  simp only [← length_assignment]
  rw [cloneStr_of_stringAt hvalue, Checked.ok_bind, hvalue.strlen, Checked.ok_bind, hnext]

/-- Any other line. -/
theorem metadataLoop_of_other (hoff : off < length) (hline : StringAt m size off line)
    (hkey : keyAt m size off result [.server, .port] = .ok none) :
    metadataLoop m size length (rounds + 1) off result =
      metadataLoop m size length rounds (off + line.length + 1) result := by
  rw [metadataLoop, if_pos hoff, hkey, Checked.ok_bind, hline.strlen, Checked.ok_bind]

/-! ## The grammar, line by line -/

theorem valueIn_cons_of_assignment (h : key.assignment <+: line) : valueIn key off (line :: lines) =
    some ⟨off + key.assignment.length, line.drop key.assignment.length⟩ := if_pos h

theorem valueIn_cons_of_not_begins (h : ¬ key.name <+: line) :
    valueIn key off (line :: lines) = valueIn key (off + line.length + 1) lines :=
  if_neg fun hassign => h (begins_of_assignment hassign)

/-- A value lies in the lines that it is looked for in. -/
theorem start_of_valueIn {value : Clone} (h : valueIn key off lines = some value) :
    off + key.assignment.length ≤ value.start := by
  induction lines generalizing off with
  | nil => cases h
  | cons line lines ih =>
    rw [valueIn] at h
    split_ifs at h
    · obtain rfl := Option.some_inj.1 h
      exact le_rfl
    · have := ih h
      omega

theorem keyFirst_cons_of_begins (h : key.name <+: line) :
    KeyFirst key (line :: lines) ↔ key.assignment <+: line := by
  have hfind : (line :: lines).find? (key.name <+: ·) = some line :=
    List.find?_cons_of_pos (decide_eq_true h)
  rw [KeyFirst, hfind]
  exact ⟨fun hfirst => hfirst line rfl, fun hassign _ hmem => Option.some_inj.1 hmem ▸ hassign⟩

theorem keyFirst_cons_of_not_begins (h : ¬ key.name <+: line) :
    KeyFirst key (line :: lines) ↔ KeyFirst key lines := by
  rw [KeyFirst, KeyFirst, List.find?_cons_of_neg (by simpa using h)]

theorem hasRoom_nil : HasRoom [] := fun rest hrest h => by
  rw [List.suffix_nil.1 hrest] at h
  cases h

theorem hasRoom_cons : HasRoom (line :: lines) ↔
    (1 < linesSize (line :: lines) → Key.server.name.length ≤ linesSize (line :: lines)) ∧
      HasRoom lines := by
  constructor
  · exact fun h => ⟨h _ List.suffix_rfl, fun rest hrest => h rest (hrest.trans (List.suffix_cons ..))⟩
  · rintro ⟨hline, hlines⟩ rest hrest
    rcases List.suffix_cons_iff.1 hrest with rfl | hrest
    · exact hline
    · exact hlines rest hrest

/-! ## The loop -/

/-- The fields, after the lines from `off` on, by the grammar. -/
def withValues (result : Metadata) (off : ℕ) (lines : List (List UInt8)) : Metadata :=
  fun key => (result key).or (valueIn key off lines)

/-- `KeyFirst`, of the fields that are not set yet. -/
def UnsetFirst (result : Metadata) (lines : List (List UInt8)) : Prop :=
  ∀ key, result key = none → KeyFirst key lines

theorem withValues_nil : withValues result off [] = result := funext fun _ => Option.or_none

theorem unsetFirst_nil : UnsetFirst result [] := fun _ _ _ hmem => nomatch hmem

theorem withValues_of_assignment (hunset : result key = none) (h : key.assignment <+: line) :
    withValues (Function.update result key
        (some ⟨off + key.assignment.length, line.drop key.assignment.length⟩))
      (off + line.length + 1) lines = withValues result off (line :: lines) := by
  funext key'
  rw [withValues, withValues]
  by_cases heq : key' = key
  · subst heq
    rw [Function.update_self, hunset, valueIn_cons_of_assignment h]
    rfl
  · rw [Function.update_of_ne heq, valueIn_cons_of_not_begins]
    exact fun hprefix => heq (eq_of_begins hprefix (begins_of_assignment h))

theorem withValues_of_other (h : ∀ key : Key, key.name <+: line → result key ≠ none) :
    withValues result (off + line.length + 1) lines = withValues result off (line :: lines) := by
  funext key
  rw [withValues, withValues]
  by_cases hprefix : key.name <+: line
  · obtain ⟨value, hvalue⟩ := Option.ne_none_iff_exists'.1 (h key hprefix)
    rw [hvalue, Option.some_or, Option.some_or]
  · rw [valueIn_cons_of_not_begins hprefix]

theorem unsetFirst_of_assignment (h : key.assignment <+: line) {value : Clone} :
    UnsetFirst result (line :: lines) ↔
      UnsetFirst (Function.update result key (some value)) lines := by
  refine forall_congr' fun key' => ?_
  by_cases heq : key' = key
  · subst heq
    rw [Function.update_self]
    refine iff_of_true (fun _ => ?_) fun hunset => nomatch hunset
    exact (keyFirst_cons_of_begins (begins_of_assignment h)).2 h
  · rw [Function.update_of_ne heq, keyFirst_cons_of_not_begins]
    exact fun hprefix => heq (eq_of_begins hprefix (begins_of_assignment h))

theorem unsetFirst_of_other (h : ∀ key : Key, key.name <+: line → result key ≠ none) :
    UnsetFirst result (line :: lines) ↔ UnsetFirst result lines := by
  refine forall_congr' fun key => forall_congr' fun hunset => ?_
  exact keyFirst_cons_of_not_begins fun hprefix => h key hprefix hunset

/-- A line that begins with the name of a key, but is not one for it, spoils the field. -/
theorem metadataLoop_ne_of_not_assignment (hoff : off < length)
    (hkey : keyAt m size off result [.server, .port] = .ok (some key))
    (h : ¬ key.assignment <+: line) :
    metadataLoop m size length (rounds + 1) off result ≠
      .ok (withValues result off (line :: lines)) := by
  intro hloop
  obtain ⟨text, htext⟩ := start_of_keyAt hoff hkey hloop
  rw [withValues, eq_none_of_keyAt hkey, Option.none_or, valueIn, if_neg h] at htext
  have hstart : off + line.length + 1 + key.assignment.length ≤ off + key.assignment.length :=
    start_of_valueIn htext
  omega

/-- The loop ends at the end of the text. -/
theorem metadataLoop_of_le (hoff : length ≤ off) :
    metadataLoop m size length (rounds + 1) off result = .ok result := by
  rw [metadataLoop, if_neg hoff.not_gt]
  rfl

/-- One line, if the loop is right from the next one on. -/
theorem metadataLoop_cons_iff (hoff : off < length) (hline : StringAt m (length + 1) off line)
    (hsize : off + linesSize (line :: lines) = length + 1)
    (hnext : ∀ next : Metadata,
      metadataLoop m (length + 1) length rounds (off + line.length + 1) next =
          .ok (withValues next (off + line.length + 1) lines) ↔
        UnsetFirst next lines ∧ HasRoom lines) :
    metadataLoop m (length + 1) length (rounds + 1) off result =
        .ok (withValues result off (line :: lines)) ↔
      UnsetFirst result (line :: lines) ∧ HasRoom (line :: lines) := by
  by_cases hroom : off + Key.server.name.length ≤ length + 1
  · have hfits : 1 < linesSize (line :: lines) →
        Key.server.name.length ≤ linesSize (line :: lines) := by omega
    rcases keyAt_spec hline hroom result [.server, .port] with ⟨key, hkey, hname⟩ | ⟨hkey, hkeys⟩
    · by_cases hassign : key.assignment <+: line
      · rw [metadataLoop_of_assignment hoff hline hkey hassign,
          ← withValues_of_assignment (eq_none_of_keyAt hkey) hassign, hnext,
          unsetFirst_of_assignment hassign, hasRoom_cons, and_iff_right hfits]
      · refine iff_of_false (metadataLoop_ne_of_not_assignment hoff hkey hassign) fun h => ?_
        exact hassign ((keyFirst_cons_of_begins hname).1 (h.1 key (eq_none_of_keyAt hkey)))
    · have hother (key : Key) := hkeys key (by cases key <;> decide)
      rw [metadataLoop_of_other hoff hline hkey, ← withValues_of_other hother, hnext,
        unsetFirst_of_other hother, hasRoom_cons, and_iff_right hfits]
  -- The first comparison goes behind the end of the copy.
  · refine iff_of_false (fun h => ?_) fun h => ?_
    · rw [metadataLoop, if_pos hoff, keyAt, memcmp, if_neg hroom] at h
      cases h
    · have hfits := (hasRoom_cons.1 h.2).1
      omega

/-- The loop, from the start of a line on. By induction on the lines. -/
theorem metadataLoop_iff (hlines : LinesAt m (length + 1) off lines)
    (hrounds : length + 1 < off + rounds) :
    metadataLoop m (length + 1) length rounds off result = .ok (withValues result off lines) ↔
      UnsetFirst result lines ∧ HasRoom lines := by
  have hsize := hlines.add_linesSize
  obtain ⟨k, rfl⟩ : ∃ k, rounds = k + 1 := Nat.exists_eq_succ_of_ne_zero (by omega)
  induction lines generalizing off k result with
  | nil =>
    obtain rfl : off = length + 1 := hlines
    rw [metadataLoop_of_le (Nat.le_succ length), withValues_nil]
    exact iff_of_true rfl ⟨unsetFirst_nil, hasRoom_nil⟩
  | cons line lines ih =>
    obtain ⟨hline, hlines⟩ := hlines
    rcases Nat.lt_or_ge off length with hoff | hend
    · refine metadataLoop_cons_iff hoff hline hsize fun next => ?_
      rw [linesSize] at hsize
      obtain ⟨k, rfl⟩ : ∃ j, k = j + 1 := Nat.exists_eq_succ_of_ne_zero (by omega)
      exact ih hlines hlines.add_linesSize k (by omega)
    -- Behind the last newline there is an empty line, which is not gone through.
    · rw [linesSize] at hsize
      obtain rfl : line = [] := List.length_eq_zero_iff.1 (by omega)
      have hother : ∀ key : Key, key.name <+: [] → result key ≠ none := by
        intro key hprefix
        cases key <;> exact absurd hprefix (by decide)
      obtain rfl : lines = [] := by
        cases lines with
        | nil => rfl
        | cons line' lines =>
          rw [linesSize] at hsize
          omega
      rw [metadataLoop_of_le hend, ← withValues_of_other hother, withValues_nil,
        unsetFirst_of_other hother, hasRoom_cons]
      exact iff_of_true rfl ⟨unsetFirst_nil, fun h => absurd h (by decide), hasRoom_nil⟩

/-! ## The text -/

variable (memory : Memory UInt8) (text : ConfigText)

theorem copy_of_lt {i : ℕ} (hi : i < text.bytes.length) : text.copy memory i = text.bytes[i] := by
  have hmem : i < (text.bytes ++ [0]).length := by
    rw [List.length_append]
    omega
  have hwrite := memory.write_of_mem 0 (text.bytes ++ [0]) hmem
  rwa [Nat.zero_add, List.getElem_append_left hi] at hwrite

theorem copy_length : text.copy memory text.bytes.length = 0 := by
  have hmem : text.bytes.length < (text.bytes ++ [0]).length := by
    rw [List.length_append]
    exact Nat.lt_succ_self _
  have hwrite := memory.write_of_mem 0 (text.bytes ++ [0]) hmem
  rwa [Nat.zero_add, List.getElem_concat_length rfl] at hwrite

theorem stringAt_copy : StringAt (text.copy memory) (text.bytes.length + 1) 0 text.bytes where
  lt := by omega
  read := read_eq_of_getElem _ _ _ fun i hi => by
    rw [Nat.zero_add]
    exact copy_of_lt memory text hi
  terminator := by
    rw [Nat.zero_add]
    exact copy_length memory text
  noNul := text.noNul

/-- The lines of the copy, once its newlines are terminators. -/
theorem linesAt_copy : LinesAt (endLines (text.copy memory) text.bytes.length)
    (text.bytes.length + 1) 0 text.lines := by
  have hbytes (i : ℕ) (hi : i < text.bytes.length) :
      endLines (text.copy memory) text.bytes.length (0 + i) =
        if text.bytes[i] = newline then 0 else text.bytes[i] := by
    rw [Nat.zero_add, endLines, copy_of_lt memory text hi]
    simp only [hi, true_and]
  have hend : endLines (text.copy memory) text.bytes.length (0 + text.bytes.length) = 0 := by
    rw [Nat.zero_add, endLines, if_neg fun h => h.1.false, copy_length]
  have hlines := linesAt_splitOn text.noNul hbytes hend
  rwa [Nat.zero_add] at hlines

/-- The parser is its loop, in the copy whose newlines are terminators. -/
theorem strToMetadata_eq : strToMetadata memory text =
    metadataLoop (endLines (text.copy memory) text.bytes.length) (text.bytes.length + 1)
      text.bytes.length (text.bytes.length + 2) 0 fun _ => none := by
  have hlength : text.bytes.length % 2 ^ 32 = text.bytes.length :=
    Nat.mod_eq_of_lt (text.length_lt.trans (by decide))
  simp only [strToMetadata]
  rw [(stringAt_copy memory text).strlen, Checked.ok_bind, hlength]

theorem matchesGrammar_iff : MatchesGrammar memory text ↔ WellFormed text := by
  have hvalues : withValues (fun _ => none) 0 text.lines = fun key => valueIn key 0 text.lines :=
    funext fun _ => Option.none_or
  rw [MatchesGrammar, strToMetadata_eq, ← hvalues,
    metadataLoop_iff (linesAt_copy memory text) (by omega)]
  constructor
  · exact fun ⟨hfirst, hroom⟩ => ⟨fun key => hfirst key rfl, hroom⟩
  · exact fun h => ⟨fun key _ => h.keyFirst key, h.room⟩

variable {memory text}

/-- A parser that finds the pieces of the text finds their contents. -/
theorem MatchesGrammar.valuesMatch (h : MatchesGrammar memory text) : ValuesMatch memory text :=
  ⟨_, h, fun _ => rfl⟩

/-! ## A key without a value -/

/-- `server`, without a value, and a line `port=8080`. -/
def bareServer : ConfigText where
  bytes := Key.server.name ++ newline :: Key.port.assignment ++ [56, 48, 56, 48, newline]
  noNul := by decide
  length_lt := by decide

/-- The line behind `server` becomes its value, and there is no port. -/
theorem not_valuesMatch_bareServer : ¬ ValuesMatch (fun _ => 0) bareServer := by
  rintro ⟨result, hresult, hvalues⟩
  have hport : (strToMetadata (fun _ => 0) bareServer).map (fun result => (result .port).isSome) =
      .ok false := by
    decide +kernel
  have hgrammar : (valueIn .port 0 bareServer.lines).isSome := by decide +kernel
  rw [hresult] at hport
  have hnone : (result .port).isSome = false := Except.ok.inj hport
  rw [← Option.isSome_map, ← hvalues, Option.isSome_map, hnone] at hgrammar
  cases hgrammar

end OnionRouter.Config
