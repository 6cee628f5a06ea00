import AirspyhfWsprd.Jt9.DecodeLine

/-!
What the built-in FT8 decoder makes of a decoded message: the text that
`ftx_message_decode` joins, and the sender that `decode_report_fields` of
`ft8_decoder.c` takes from the message's fields.
-/

namespace AirspyhfWsprd.Ft8

open Library Jt9

/-- The end of `ftx_message_decode`: its fields joined, a null pointer for a field
that the type of the message does not have. -/
def ftxMessageText : (field1 field2 field3 : Option CString) → CString
  | none, _, _ => []
  | some field1, none, _ => field1
  | some field1, some field2, none => field1 ++ bytes " " ++ field2
  | some field1, some field2, some field3 => field1 ++ bytes " " ++ field2 ++ bytes " " ++ field3

/-- The loop of `normalize_report_callsign`: it copies while it checks, so that the characters
before a refused one are in the destination. Nothing for a character it refuses. -/
def reportCallsignLoop (index : Nat) (hasLetter hasDigit : Bool) (destination : List UInt8) :
    CString → Option (Bool × Bool) × List UInt8
  | [] => (some (hasLetter, hasDigit), destination)
  | character :: rest =>
      if !(isalnum character || character == slash) then (none, destination)
      else
        reportCallsignLoop (index + 1) (hasLetter || isalpha character)
          (hasDigit || isdigit character) (destination.set index (toupper character)) rest

/-- The `length` characters from `start` on that the loop looks at. -/
def reportInner (source : CString) : CString :=
  if source.length ≥ 2 && source.head? == some '<'.toUInt8 &&
      source.getLast? == some '>'.toUInt8 then (source.drop 1).take (source.length - 2)
  else source

/-- `normalize_report_callsign`: the value it returns and the destination behind it, which only
a callsign without a letter or a digit clears. -/
def normalizeReportCallsign (destination : List UInt8) (source : CString) : Bool × List UInt8 :=
  let inner := reportInner source
  if inner.length < 3 || inner.length > 12 then (false, destination)
  else
    match reportCallsignLoop 0 false false destination inner with
    | (none, destination) => (false, destination)
    | (some (hasLetter, hasDigit), destination) =>
        if !hasLetter || !hasDigit then (false, destination.set 0 0)
        else (true, destination.set inner.length 0)

/-- The loop of `normalize_report_grid`. It copies character by character, and what it has
copied before a refused one stays. -/
def reportGridLoop (index : Nat) (destination : List UInt8) : CString → Bool × List UInt8
  | [] => (true, destination.set index 0)
  | character :: rest =>
      let inRange (low high : UInt8) := low ≤ character && character ≤ high
      let valid :=
        if index < 2 then inRange 'A'.toUInt8 'R'.toUInt8
        else if index < 4 then isdigit character
        else inRange 'A'.toUInt8 'X'.toUInt8
      if !valid then (false, destination)
      else
        reportGridLoop (index + 1)
          (destination.set index (if index ≥ 4 then tolower character else character)) rest

/-- `normalize_report_grid` -/
def normalizeReportGrid (destination : List UInt8) (source : CString) : Bool × List UInt8 :=
  if source.length ≠ 4 ∧ source.length ≠ 6 then (false, destination)
  else reportGridLoop 0 destination source

/-- The fields of a standard message or of one with a nonstandard call. -/
structure MessageFields where
  callTo : CString
  callDe : CString
  extra : CString

/-- `decode_report_fields` of `ft8_decoder.c`; no fields for another type of message or
one that cannot be decoded. -/
def decodeReportFields (fields : Option MessageFields) (result : Ft8DecodeResult) :
    Ft8DecodeResult :=
  let result := {result with
    transmitterCall := result.transmitterCall.set 0 0
    transmitterGrid := result.transmitterGrid.set 0 0}
  match fields with
  | none => result
  | some fields =>
      match normalizeReportCallsign result.transmitterCall fields.callDe with
      | (false, call) => {result with transmitterCall := call.set 0 0}
      | (true, call) =>
          {result with
            transmitterCall := call
            transmitterGrid := (normalizeReportGrid result.transmitterGrid fields.extra).2}

/-- A callsign as it is, in angle brackets, or one that the decoder does not know. -/
inductive Sender where
  | plain (call : CString)
  | bracketed (call : CString)
  | unresolved
deriving DecidableEq

def Sender.text : Sender → CString
  | .plain call => call
  | .bracketed call => '<'.toUInt8 :: (call ++ ['>'.toUInt8])
  | .unresolved => bytes "<...>"

def Sender.Valid : Sender → Prop
  | .plain call | .bracketed call => IsCallsign call
  | .unresolved => True

/-- The callsign of a sender in capital letters. -/
def Sender.normalized : Sender → CString
  | .plain call | .bracketed call => call.map toupper
  | .unresolved => []

/-- On letters, digits and slashes the loop writes the capitals of the text behind what it has
written, and remembers whether there was a letter and a digit. -/
theorem reportCallsignLoop_output {text : CString}
    (htext : ∀ c ∈ text, isalnum c = true ∨ c = slash) (hasLetter hasDigit : Bool)
    (written tail : List UInt8) (hroom : text.length ≤ tail.length) :
    reportCallsignLoop written.length hasLetter hasDigit (written ++ tail) text =
      (some (hasLetter || text.any isalpha, hasDigit || text.any isdigit),
        written ++ text.map toupper ++ tail.drop text.length) := by
  induction text generalizing hasLetter hasDigit written tail with
  | nil => simp [reportCallsignLoop]
  | cons character rest ih =>
      obtain ⟨hcharacter, hrest⟩ := List.forall_mem_cons.mp htext
      obtain ⟨old, tail, rfl⟩ := List.exists_cons_of_length_pos (Nat.zero_lt_of_lt hroom)
      have hset : (written ++ old :: tail).set written.length (toupper character) =
          (written ++ [toupper character]) ++ tail := by
        simp
      have hlength : written.length + 1 = (written ++ [toupper character]).length := by simp
      rw [reportCallsignLoop,
        if_neg (by simpa [Decidable.or_iff_not_imp_left] using hcharacter), hset, hlength,
        ih hrest _ _ _ tail (Nat.le_of_succ_le_succ hroom)]
      simp only [List.any_cons, List.map_cons, List.append_assoc, List.singleton_append,
        Bool.or_assoc, List.length_cons, List.drop_succ_cons]

/-- What the report's validator accepts: three to twelve letters, digits and slashes, with
a letter and a digit among them. -/
structure IsReportCallsign (text : CString) : Prop where
  length : 3 ≤ text.length ∧ text.length ≤ 12
  characters : ∀ c ∈ text, isalnum c = true ∨ c = slash
  letter : ∃ c ∈ text, isalpha c = true
  digit : ∃ c ∈ text, isdigit c = true

/-- When the loop reaches the end, the text has nothing but letters, digits and slashes, and
the two flags say what it has. The converse of the lemma before it. -/
theorem reportCallsignLoop_found {text : CString} {index : Nat} {hasLetter hasDigit : Bool}
    {destination : List UInt8} {found : Bool × Bool}
    (h : (reportCallsignLoop index hasLetter hasDigit destination text).1 = some found) :
    (∀ c ∈ text, isalnum c = true ∨ c = slash) ∧
      found = (hasLetter || text.any isalpha, hasDigit || text.any isdigit) := by
  induction text generalizing index hasLetter hasDigit destination with
  | nil =>
      rw [List.any_nil, List.any_nil, Bool.or_false, Bool.or_false]
      exact ⟨List.forall_mem_nil _, (Option.some.inj h).symm⟩
  | cons character rest ih =>
      rw [reportCallsignLoop] at h
      split at h
      · cases h
      · rename_i hkept
        obtain ⟨hrest, hfound⟩ := ih h
        simp only [Bool.not_eq_true', Bool.not_eq_false, Bool.or_eq_true, beq_iff_eq] at hkept
        rw [hfound, List.any_cons, List.any_cons, Bool.or_assoc, Bool.or_assoc]
        exact ⟨List.forall_mem_cons.mpr ⟨hkept, hrest⟩, rfl⟩

/-- A callsign for reports is accepted without its brackets, in capitals, and the terminator
behind it is inside the thirteen bytes. -/
theorem normalizeReportCallsign_accepted {source : CString}
    (h : IsReportCallsign (reportInner source)) {destination : List UInt8}
    (hdestination : destination.length = 13) :
    (normalizeReportCallsign destination source).1 = true ∧
      cstr (normalizeReportCallsign destination source).2 = (reportInner source).map toupper := by
  let inner := reportInner source
  have hlength := h.length
  have hletter : inner.any isalpha = true := List.any_eq_true.mpr h.letter
  have hdigit : inner.any isdigit = true := List.any_eq_true.mpr h.digit
  have hloop : reportCallsignLoop 0 false false destination inner =
      (some (true, true), inner.map toupper ++ destination.drop inner.length) := by
    have houtput := reportCallsignLoop_output h.characters false false [] destination
      (Nat.le_trans hlength.2 (by omega))
    rwa [hletter, hdigit] at houtput
  have hroom : 0 < (destination.drop inner.length).length := by
    rw [List.length_drop]
    exact Nat.sub_pos_of_lt (Nat.lt_of_le_of_lt hlength.2 (by omega))
  obtain ⟨old, rest, hrest⟩ := List.exists_cons_of_length_pos hroom
  have hset : (inner.map toupper ++ old :: rest).set inner.length 0 =
      inner.map toupper ++ 0 :: rest := by
    simp
  have hlimits : ¬ (decide (inner.length < 3) || decide (inner.length > 12)) = true := by
    simp only [Bool.or_eq_true, decide_eq_true_eq]
    exact not_or.mpr ⟨Nat.not_lt.mpr hlength.1, Nat.not_lt.mpr hlength.2⟩
  have hresult : normalizeReportCallsign destination source =
      (true, (inner.map toupper ++ old :: rest).set inner.length 0) := by
    rw [normalizeReportCallsign, if_neg hlimits, hloop, hrest]
    rfl
  rw [hresult, hset]
  exact ⟨rfl, cstr_append (map_toupper_ne_zero h.characters) rest⟩

/-- The validator accepts exactly the callsigns for reports: three to twelve letters, digits
and slashes between the brackets, with a letter and a digit. -/
theorem normalizeReportCallsign_accepts_iff {source : CString} {destination : List UInt8}
    (hdestination : destination.length = 13) :
    (normalizeReportCallsign destination source).1 = true ↔
      IsReportCallsign (reportInner source) := by
  refine ⟨fun haccepted => ?_, fun h => (normalizeReportCallsign_accepted h hdestination).1⟩
  rw [normalizeReportCallsign] at haccepted
  split at haccepted
  · cases haccepted
  rename_i hlimits
  simp only [Bool.or_eq_true, decide_eq_true_eq, not_or, Nat.not_lt] at hlimits
  split at haccepted
  · cases haccepted
  rename_i hasLetter hasDigit _ hloop
  obtain ⟨hcharacters, hfound⟩ := reportCallsignLoop_found (congrArg Prod.fst hloop)
  obtain ⟨rfl, rfl⟩ := Prod.mk.inj hfound
  rw [Bool.false_or, Bool.false_or] at haccepted
  split at haccepted
  · cases haccepted
  rename_i hboth
  simp only [Bool.or_eq_true, Bool.not_eq_true', not_or, Bool.not_eq_false] at hboth
  exact ⟨hlimits, hcharacters, List.any_eq_true.mp hboth.1, List.any_eq_true.mp hboth.2⟩

/-- The part of a sender that the decoders check. -/
def Sender.inner : Sender → CString
  | .plain call | .bracketed call => call
  | .unresolved => bytes "..."

/-- The brackets that the decoder prints around a callsign that it knows by its hash are taken
off again. -/
theorem reportInner_text {sender : Sender} (h : sender.Valid) :
    reportInner sender.text = sender.inner := by
  cases sender with
  | plain call =>
      have hhead := h.head?_ne_less
      rw [reportInner, Sender.text, if_neg]
      · rfl
      · simp [hhead]
  | bracketed call =>
      have hlast : (Sender.bracketed call).text.getLast? = some '>'.toUInt8 := by
        rw [Sender.text, ← List.cons_append, List.getLast?_concat]
      rw [reportInner, hlast, Sender.text, if_pos]
      · simp [Sender.inner]
      · simp
  | unresolved => rfl

theorem IsReportCallsign.of_callsign {call : CString} (h : IsCallsign call) :
    IsReportCallsign call :=
  ⟨h.length, h.characters, h.letter, h.digit⟩

/-- The report's callsign is the normalized sender, and nothing without one. -/
theorem normalizeReportCallsign_sender {sender : Sender} (h : sender.Valid)
    {destination : List UInt8} (hdestination : destination.length = 13) :
    (sender = .unresolved ∧ (normalizeReportCallsign destination sender.text).1 = false) ∨
      (normalizeReportCallsign destination sender.text).1 = true ∧
        cstr (normalizeReportCallsign destination sender.text).2 = sender.normalized := by
  have haccepted (hcall : IsCallsign sender.inner)
      (hnormalized : sender.normalized = sender.inner.map toupper) :
      (normalizeReportCallsign destination sender.text).1 = true ∧
        cstr (normalizeReportCallsign destination sender.text).2 = sender.normalized := by
    rw [hnormalized, ← reportInner_text h]
    refine normalizeReportCallsign_accepted ?_ hdestination
    rw [reportInner_text h]
    exact .of_callsign hcall
  cases sender with
  | plain call => exact Or.inr (haccepted h rfl)
  | bracketed call => exact Or.inr (haccepted h rfl)
  | unresolved => exact Or.inl ⟨rfl, rfl⟩

/-- The built-in decoder's `transmitter_call`. -/
theorem decodeReportFields_call (fields : MessageFields) {sender : Sender} (h : sender.Valid)
    (hsender : fields.callDe = sender.text) {result : Ft8DecodeResult}
    (hresult : result.transmitterCall.length = 13) :
    cstr (decodeReportFields (some fields) result).transmitterCall = sender.normalized := by
  have hlength : (result.transmitterCall.set 0 0).length = 13 := by
    rw [List.length_set, hresult]
  simp only [decodeReportFields, hsender]
  rcases hcall : normalizeReportCallsign (result.transmitterCall.set 0 0) sender.text with
    ⟨found, call⟩
  have hcases := normalizeReportCallsign_sender h hlength
  rw [hcall] at hcases
  rcases hcases with ⟨rfl, hrefused⟩ | ⟨hfound, hnormalized⟩
  · obtain rfl : found = false := hrefused
    dsimp only
    cases call <;> rfl
  · obtain rfl : found = true := hfound
    exact hnormalized

end AirspyhfWsprd.Ft8
