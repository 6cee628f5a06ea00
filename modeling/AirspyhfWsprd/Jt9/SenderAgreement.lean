import AirspyhfWsprd.Ft8.MessageFields
import AirspyhfWsprd.Jt9.TransmitterCall

/-!
The two decoders' senders. The built-in decoder has the message's fields; the
parser of jt9's lines has only their words, and behind `CQ` it takes the first word
that looks like a callsign.
-/

namespace AirspyhfWsprd.Jt9

open Library Ft8

/-- The word behind `CQ`: three digits or one to four letters. -/
def IsModifier (modifier : CString) : Prop :=
  modifier.length = 3 ∧ (∀ c ∈ modifier, isdigit c = true) ∨
    (1 ≤ modifier.length ∧ modifier.length ≤ 4) ∧ ∀ c ∈ modifier, isalpha c = true

/-- Whom a message is for. -/
inductive CallTo where
  | cq
  | cqModified (modifier : CString)
  | de
  | qrz
  | call (receiver : Sender)

def CallTo.words : CallTo → List CString
  | .cq => [bytes "CQ"]
  | .cqModified modifier => [bytes "CQ", modifier]
  | .de => [bytes "DE"]
  | .qrz => [bytes "QRZ"]
  | .call receiver => [receiver.text]

def CallTo.Valid : CallTo → Prop
  | .cqModified modifier => IsModifier modifier
  | .call receiver => receiver.Valid
  | .cq | .de | .qrz => True

/-- What stands behind the sender in a message that is sent: nothing, a grid, a report with or
without an `R`, or one of the three texts of an acknowledgement. -/
inductive IsExtra : CString → Prop
  | nothing : IsExtra []
  | grid {a b c d : UInt8} (hletters : isupper a = true ∧ isupper b = true)
      (hdigits : isdigit c = true ∧ isdigit d = true) : IsExtra [a, b, c, d]
  | report {sign c d : UInt8} (hsign : sign = '+'.toUInt8 ∨ sign = '-'.toUInt8)
      (hdigits : isdigit c = true ∧ isdigit d = true) : IsExtra [sign, c, d]
  | rogerReport {sign c d : UInt8} (hsign : sign = '+'.toUInt8 ∨ sign = '-'.toUInt8)
      (hdigits : isdigit c = true ∧ isdigit d = true) : IsExtra ['R'.toUInt8, sign, c, d]
  | rrr : IsExtra (bytes "RRR")
  | rr73 : IsExtra (bytes "RR73")
  | seventyThree : IsExtra (bytes "73")

/-- The words of a text, one blank between them. -/
def joined (words : List CString) : CString := [' '.toUInt8].intercalate words

/-- A message that both decoders can read. -/
structure SentMessage where
  callTo : CallTo
  sender : Sender
  extra : CString
  callTo_valid : callTo.Valid
  sender_valid : sender.Valid
  extra_valid : IsExtra extra

/-- `call_to`, `call_de` and `extra` -/
def SentMessage.fields (message : SentMessage) : MessageFields where
  callTo := joined message.callTo.words
  callDe := message.sender.text
  extra := message.extra

def SentMessage.words (message : SentMessage) : List CString :=
  message.callTo.words ++ message.sender.text :: if message.extra = [] then [] else [message.extra]

/-- `call_to call_de extra` -/
def SentMessage.text (message : SentMessage) : CString := joined message.words

/-- The jt9 parser finds the message's sender, as the built-in decoder does. -/
def SenderAgrees (message : SentMessage) : Prop :=
  ∀ result builtIn : Ft8DecodeResult, result.message = message.text →
    result.transmitterCall.length = 13 → builtIn.transmitterCall.length = 13 →
      cstr (decodeReportFields result).transmitterCall = message.sender.normalized ∧
      cstr (Ft8.decodeReportFields (some message.fields) builtIn).transmitterCall =
        message.sender.normalized

/-- The extra field is empty, `73` or a report without `R`. -/
def quietExtra (extra : CString) : Bool :=
  extra = [] || extra = bytes "73" || extra.head? == some '+'.toUInt8 ||
    extra.head? == some '-'.toUInt8

/-- A CQ with an unresolved sender has no modifier of more than two letters and no
extra field but a quiet one. -/
def senderDecided (message : SentMessage) : Bool :=
  match message.sender, message.callTo with
  | .unresolved, .cq => quietExtra message.extra
  | .unresolved, .cqModified modifier => modifier.length ≤ 2 && quietExtra message.extra
  | _, _ => true

/-- A word as `strtok` gives it. -/
def IsToken (word : CString) : Prop := word ≠ [] ∧ ' '.toUInt8 ∉ word

theorem strtok_joined {words : List CString} (hwords : ∀ word ∈ words, IsToken word)
    (hne : words ≠ []) : strtok ' '.toUInt8 (joined words) = words := by
  rw [strtok, joined, List.splitOn_intercalate _ (fun word h => (hwords word h).2) hne]
  apply List.filter_eq_self.mpr
  intro word hword
  simp [(hwords word hword).1]

theorem token_of_class {word : CString} {inClass : UInt8 → Bool}
    (hblank : inClass ' '.toUInt8 = false) (hne : word ≠ [])
    (hword : ∀ c ∈ word, inClass c = true) : IsToken word := by
  refine ⟨hne, fun hmem => ?_⟩
  rw [hword _ hmem] at hblank
  cases hblank

/-- The sender's text is one word: it has no blanks inside, and it is not empty. -/
theorem sender_token {sender : Sender} (h : sender.Valid) : IsToken sender.text := by
  have hcall {call : CString} (h : IsCallsign call) : IsToken call := by
    refine ⟨List.ne_nil_of_length_pos (by have := h.length; omega), fun hmem => ?_⟩
    rcases h.characters _ hmem with halnum | hslash
    · exact absurd halnum (by decide)
    · exact absurd hslash (by decide)
  cases sender with
  | plain call => exact hcall h
  | bracketed call =>
      refine ⟨List.cons_ne_nil _ _, fun hmem => ?_⟩
      rcases List.mem_cons.mp hmem with hangle | hmem
      · exact absurd hangle (by decide)
      rcases List.mem_append.mp hmem with hinner | hangle
      · exact (hcall h).2 hinner
      · exact absurd (List.mem_singleton.mp hangle) (by decide)
  | unresolved => exact ⟨by decide, by decide⟩

theorem modifier_token {modifier : CString} (h : IsModifier modifier) : IsToken modifier := by
  rcases h with ⟨hlength, hdigits⟩ | ⟨hlength, hletters⟩
  · exact token_of_class (by decide) (List.ne_nil_of_length_pos (by omega)) hdigits
  · exact token_of_class (by decide) (List.ne_nil_of_length_pos (by omega)) hletters

/-- The third field is one word when there is one, whether it is a locator, a report or one of
the three texts. -/
theorem extra_token {extra : CString} (h : IsExtra extra) (hne : extra ≠ []) : IsToken extra := by
  refine ⟨hne, fun hmem => ?_⟩
  cases h with
  | nothing => cases hmem
  | grid hletters hdigits =>
      simp only [List.mem_cons, List.not_mem_nil, or_false] at hmem
      rcases hmem with rfl | rfl | rfl | rfl
      · exact absurd hletters.1 (by decide)
      · exact absurd hletters.2 (by decide)
      · exact absurd hdigits.1 (by decide)
      · exact absurd hdigits.2 (by decide)
  | report hsign hdigits =>
      simp only [List.mem_cons, List.not_mem_nil, or_false] at hmem
      rcases hmem with rfl | rfl | rfl
      · exact absurd hsign (by decide)
      · exact absurd hdigits.1 (by decide)
      · exact absurd hdigits.2 (by decide)
  | rogerReport hsign hdigits =>
      simp only [List.mem_cons, List.not_mem_nil, or_false] at hmem
      rcases hmem with hr | rfl | rfl | rfl
      · exact absurd hr (by decide)
      · exact absurd hsign (by decide)
      · exact absurd hdigits.1 (by decide)
      · exact absurd hdigits.2 (by decide)
  | rrr => exact absurd hmem (by decide)
  | rr73 => exact absurd hmem (by decide)
  | seventyThree => exact absurd hmem (by decide)

/-- The words of the first field, such as `CQ` and its modifier, are words of the message. -/
theorem callTo_tokens {callTo : CallTo} (h : callTo.Valid) :
    ∀ word ∈ callTo.words, IsToken word := by
  have hfixed {word : CString} (hword : IsToken word) : ∀ other ∈ [word], IsToken other := by
    intro other hother
    exact List.mem_singleton.mp hother ▸ hword
  cases callTo with
  | cq => exact hfixed ⟨by decide, by decide⟩
  | cqModified modifier =>
      intro word hword
      rcases List.mem_cons.mp hword with rfl | hmodifier
      · exact ⟨by decide, by decide⟩
      · exact hfixed (modifier_token h) word hmodifier
  | de => exact hfixed ⟨by decide, by decide⟩
  | qrz => exact hfixed ⟨by decide, by decide⟩
  | call receiver => exact hfixed (sender_token h)

/-- The words of a message's text are those of its fields in their order. Empty fields leave a
blank or two, which the parser passes over. -/
theorem message_words (message : SentMessage) : messageTokens message.text = message.words := by
  have htokens : ∀ word ∈ message.words, IsToken word := by
    intro word hword
    rcases List.mem_append.mp hword with hcallTo | hrest
    · exact callTo_tokens message.callTo_valid word hcallTo
    rcases List.mem_cons.mp hrest with rfl | hextra
    · exact sender_token message.sender_valid
    · split at hextra
      · cases hextra
      · rename_i hne
        exact List.mem_singleton.mp hextra ▸ extra_token message.extra_valid hne
  have hne : message.words ≠ [] := List.append_ne_nil_of_right_ne_nil _ (List.cons_ne_nil _ _)
  have hlength : message.words.length ≤ 8 := by
    rw [SentMessage.words, List.length_append, List.length_cons]
    have hcallTo : message.callTo.words.length ≤ 2 := by
      cases message.callTo <;> simp [CallTo.words]
    split
    · rw [List.length_nil]
      omega
    · rw [List.length_singleton]
      omega
  rw [messageTokens, SentMessage.text, strtok_joined htokens hne, List.take_of_length_le hlength]

/-- The words that the jt9 parser tries. -/
def SentMessage.tried (message : SentMessage) : List CString :=
  match message.callTo with
  | .cq => message.sender.text :: if message.extra = [] then [] else [message.extra]
  | .cqModified modifier =>
      modifier :: message.sender.text :: if message.extra = [] then [] else [message.extra]
  | _ => [message.sender.text]

theorem sender_text_length {sender : Sender} (h : sender.Valid) : 3 ≤ sender.text.length := by
  cases sender with
  | plain call => exact h.length.1
  | bracketed call =>
      have hlength := h.length.1
      rw [Sender.text, List.length_cons, List.length_append]
      omega
  | unresolved => decide

/-- The words in which the parser looks for the transmitter: those behind `CQ`, or the second
one of any other message. -/
theorem message_tried (message : SentMessage) : triedTokens message.text = message.tried := by
  rw [triedTokens, message_words, SentMessage.words, SentMessage.tried]
  rcases hcallTo : message.callTo with _ | modifier | _ | _ | receiver
  · rfl
  · rfl
  · rfl
  · rfl
  · have hvalid := message.callTo_valid
    rw [hcallTo] at hvalid
    have hother : receiver.text ≠ bytes "CQ" := by
      intro heq
      have hlength := sender_text_length hvalid
      rw [heq] at hlength
      exact absurd hlength (by decide)
    exact if_neg hother

theorem unwrapped_of_head {word : CString} (h : word.head? ≠ some '<'.toUInt8) :
    unwrapped word = word := by
  rw [unwrapped, if_neg]
  simp [h]

theorem unwrapped_sender {sender : Sender} (h : sender.Valid) :
    unwrapped sender.text = sender.inner := by
  cases sender with
  | plain call => exact unwrapped_of_head h.head?_ne_less
  | bracketed call =>
      have hlast : (Sender.bracketed call).text.getLast? = some '>'.toUInt8 := by
        rw [Sender.text, ← List.cons_append, List.getLast?_concat]
      have hlength := h.length
      rw [unwrapped, hlast, Sender.text, if_pos]
      · simp [Sender.inner]
      · simp
        omega
  | unresolved => decide

theorem modifier_not_callsign {modifier : CString} (h : IsModifier modifier) :
    ¬ IsCallsign modifier := by
  have hboth : ∀ c, isalpha c = true → isdigit c = true → False := by
    intro c
    have h : ∀ c, ¬ (isalpha c = true ∧ isdigit c = true) := forall_byte (by decide +kernel)
    exact fun halpha hdigit => h c ⟨halpha, hdigit⟩
  intro hcallsign
  rcases h with ⟨-, hdigits⟩ | ⟨-, hletters⟩
  · obtain ⟨c, hc, hletter⟩ := hcallsign.letter
    exact hboth c hletter (hdigits c hc)
  · obtain ⟨c, hc, hdigit⟩ := hcallsign.digit
    exact hboth c (hletters c hc) hdigit

theorem modifier_alnum {modifier : CString} (h : IsModifier modifier) :
    ∀ c ∈ modifier, isalnum c = true := by
  intro c hc
  rcases h with ⟨-, hdigits⟩ | ⟨-, hletters⟩
  · rw [isalnum, hdigits c hc, Bool.or_true]
  · rw [isalnum, hletters c hc, Bool.true_or]

theorem alnum_head_ne {word : CString} (h : ∀ c ∈ word, isalnum c = true) (c : UInt8)
    (hc : isalnum c = false) : word.head? ≠ some c ∧ word.getLast? ≠ some c := by
  constructor
  · intro hhead
    rw [h c (List.mem_of_head? hhead)] at hc
    cases hc
  · intro hlast
    rw [h c (List.mem_of_getLast? hlast)] at hc
    cases hc

/-- A word of letters and digits that fits into the buffer makes the validator write exactly
when it has three characters or more. -/
theorem storesFirst_alnum {word : CString} (h : ∀ c ∈ word, isalnum c = true)
    (hlength : word.length ≤ 12) :
    storesFirst (unwrapped word) = decide (3 ≤ word.length) := by
  rw [unwrapped_of_head (alnum_head_ne h '<'.toUInt8 (by decide)).1]
  cases word with
  | nil => rfl
  | cons first rest =>
      have hlast := (alnum_head_ne h slash (by decide)).2
      have hfirst := h first List.mem_cons_self
      rw [List.length_cons] at hlength ⊢
      apply Bool.eq_iff_iff.mpr
      rw [storesFirst_cons, decide_eq_true_iff]
      constructor
      · intro hstores
        omega
      · intro hthree
        exact ⟨by omega, by omega, hfirst, hlast⟩

theorem grid_alnum {a b c d : UInt8} (hletters : isupper a = true ∧ isupper b = true)
    (hdigits : isdigit c = true ∧ isdigit d = true) :
    ∀ character ∈ [a, b, c, d], isalnum character = true := by
  simp only [List.forall_mem_cons, isalnum, isalpha, hletters.1, hletters.2,
    hdigits.1, hdigits.2, Bool.true_or, Bool.or_true, and_self, List.not_mem_nil, false_imp_iff,
    implies_true]

theorem digit_ne_slash : ∀ c, isdigit c = true → c ≠ slash := forall_byte (by decide +kernel)

theorem upper_quiet : ∀ c, isupper c = true → c ≠ '+'.toUInt8 ∧ c ≠ '-'.toUInt8 :=
  forall_byte (by decide +kernel)

/-- A third field makes the validator write exactly when it is not quiet, that is neither empty
nor `73` nor a report without `R`. -/
theorem extra_stores {extra : CString} (h : IsExtra extra) :
    storesFirst (unwrapped extra) = !quietExtra extra := by
  cases h with
  | nothing => rfl
  | @grid a b c d hletters hdigits =>
      obtain ⟨hplus, hminus⟩ := upper_quiet a hletters.1
      rw [storesFirst_alnum (grid_alnum hletters hdigits) (by simp)]
      simp [quietExtra, bytes, hplus, hminus]
  | @report sign c d hsign hdigits =>
      have hangle : sign ≠ '<'.toUInt8 ∧ isalnum sign = false := by
        rcases hsign with rfl | rfl <;> decide
      have hquiet : quietExtra [sign, c, d] = true := by
        rcases hsign with rfl | rfl <;> simp [quietExtra]
      rw [unwrapped_of_head (by simp [hangle.1]), hquiet, Bool.not_true]
      apply Bool.eq_false_iff.mpr
      intro hstores
      rw [(storesFirst_cons.mp hstores).2.2.1] at hangle
      cases hangle.2
  | @rogerReport sign c d hsign hdigits =>
      have hquiet : quietExtra ['R'.toUInt8, sign, c, d] = false := by
        have hr : 'R'.toUInt8 ≠ '+'.toUInt8 ∧ 'R'.toUInt8 ≠ '-'.toUInt8 := by decide
        simp [quietExtra, bytes, hr]
      have hangle : 'R'.toUInt8 ≠ '<'.toUInt8 := by decide
      have hlast : d ≠ slash := digit_ne_slash d hdigits.2
      rw [unwrapped_of_head (by simp [hangle]), hquiet, Bool.not_false, storesFirst_cons]
      refine ⟨by simp, by simp, by decide, ?_⟩
      simp [hlast]
  | rrr => decide
  | rr73 => decide
  | seventyThree => decide

theorem unresolved_stores_nothing :
    storesFirst (unwrapped Sender.unresolved.text) = false := by decide

theorem sender_callsign {sender : Sender} (h : sender.Valid) (hknown : sender ≠ .unresolved) :
    IsCallsign (unwrapped sender.text) ∧
      (unwrapped sender.text).map toupper = sender.normalized := by
  rw [unwrapped_sender h]
  cases sender with
  | plain call => exact ⟨h, rfl⟩
  | bracketed call => exact ⟨h, rfl⟩
  | unresolved => exact absurd rfl hknown

theorem modifier_refused {modifier : CString} (h : IsModifier modifier) :
    ¬ IsCallsign (unwrapped modifier) := by
  rw [unwrapped_of_head (alnum_head_ne (modifier_alnum h) '<'.toUInt8 (by decide)).1]
  exact modifier_not_callsign h

/-- A known sender is the first callsign among the words that are tried. -/
theorem tried_known_sender {message : SentMessage} (hknown : message.sender ≠ .unresolved)
    {call : List UInt8} (hcall : call.length = 13) :
    cstr (tryCallsigns call 1 message.tried).2 = message.sender.normalized := by
  obtain ⟨hcallsign, hnormalized⟩ := sender_callsign message.sender_valid hknown
  rw [← hnormalized, SentMessage.tried]
  rcases hcallTo : message.callTo with _ | modifier | _ | _ | receiver
  · exact tryCallsigns_first [] 1 hcall (List.forall_mem_nil _) hcallsign
  · have hvalid := message.callTo_valid
    rw [hcallTo] at hvalid
    refine tryCallsigns_first [modifier] 1 hcall ?_ hcallsign
    intro other hother
    rw [List.mem_singleton.mp hother]
    exact modifier_refused hvalid
  · exact tryCallsigns_first [] 1 hcall (List.forall_mem_nil _) hcallsign
  · exact tryCallsigns_first [] 1 hcall (List.forall_mem_nil _) hcallsign
  · exact tryCallsigns_first [] 1 hcall (List.forall_mem_nil _) hcallsign

/-- The extra field behind an unresolved sender is stored unless it is quiet. -/
theorem extra_words_iff {extra : CString} (h : IsExtra extra) :
    (∀ token ∈ if extra = [] then [] else [extra], storesFirst (unwrapped token) = false) ↔
      quietExtra extra = true := by
  have hstores := extra_stores h
  split
  · rename_i hempty
    rw [hempty]
    simp [quietExtra]
  · simp [hstores]

theorem modifier_stores_iff {modifier : CString} (h : IsModifier modifier) :
    storesFirst (unwrapped modifier) = false ↔ modifier.length ≤ 2 := by
  have hlength : modifier.length ≤ 12 := by
    rcases h with ⟨hthree, -⟩ | ⟨hfour, -⟩ <;> omega
  rw [storesFirst_alnum (modifier_alnum h) hlength, decide_eq_false_iff_not]
  omega

/-- For a sender known only by its hash nothing is written exactly when no word that is tried
makes the validator write. -/
theorem tried_unresolved_iff {message : SentMessage} (hunresolved : message.sender = .unresolved) :
    (∀ token ∈ message.tried, storesFirst (unwrapped token) = false) ↔
      senderDecided message = true := by
  have hextra := extra_words_iff message.extra_valid
  have hvalid := message.callTo_valid
  rw [SentMessage.tried, senderDecided, hunresolved]
  rcases hcallTo : message.callTo with _ | modifier | _ | _ | receiver
  · rw [List.forall_mem_cons, hextra]
    exact and_iff_right unresolved_stores_nothing
  · rw [hcallTo] at hvalid
    rw [List.forall_mem_cons, List.forall_mem_cons, hextra, modifier_stores_iff hvalid]
    simp only [unresolved_stores_nothing, true_and, Bool.and_eq_true, decide_eq_true_eq]
  · simp [unresolved_stores_nothing]
  · simp [unresolved_stores_nothing]
  · simp [unresolved_stores_nothing]

/-- The jt9 parser agrees with the built-in decoder on the sender, except behind an unresolved
sender of a CQ: there it takes a long modifier or the extra field. The parser tries the words
one after another and has no notion of the place of a field. -/
theorem sender_agrees_iff (message : SentMessage) :
    SenderAgrees message ↔ senderDecided message = true := by
  have hcall (result : Ft8DecodeResult) (hmessage : result.message = message.text) :
      (decodeReportFields result).transmitterCall =
        (tryCallsigns (result.transmitterCall.set 0 0) 1 message.tried).2 := by
    rw [decodeReportFields_call, hmessage, message_tried]
  have hbuiltIn (builtIn : Ft8DecodeResult) (hlength : builtIn.transmitterCall.length = 13) :
      cstr (Ft8.decodeReportFields (some message.fields) builtIn).transmitterCall =
        message.sender.normalized :=
    Ft8.decodeReportFields_call message.fields message.sender_valid rfl hlength
  rcases Decidable.em (message.sender = .unresolved) with hunresolved | hknown
  · rw [← tried_unresolved_iff hunresolved]
    have hnormalized : message.sender.normalized = [] := by
      rw [hunresolved]
      rfl
    constructor
    · intro hagrees
      have hresult := (hagrees ⟨.nan false, .nan false, .nan false, noCall, noCall, message.text⟩
        ⟨.nan false, .nan false, .nan false, noCall, noCall, []⟩ rfl rfl rfl).1
      rw [hcall _ rfl, hnormalized] at hresult
      exact (tryCallsigns_empty_iff (rfl : (noCall.set 0 0).length = 13) rfl).mp hresult
    · intro hnothing result builtIn hmessage hlength hbuiltInLength
      refine ⟨?_, hbuiltIn builtIn hbuiltInLength⟩
      have hempty : cstr (result.transmitterCall.set 0 0) = [] := by
        cases result.transmitterCall <;> rfl
      rw [hcall result hmessage, hnormalized]
      refine (tryCallsigns_empty_iff ?_ hempty).mpr hnothing
      rw [List.length_set, hlength]
  · have hdecided : senderDecided message = true := by
      rw [senderDecided]
      split
      · rename_i hsender _
        exact absurd hsender hknown
      · rename_i hsender _
        exact absurd hsender hknown
      · rfl
    refine iff_of_true ?_ hdecided
    intro result builtIn hmessage hlength hbuiltInLength
    refine ⟨?_, hbuiltIn builtIn hbuiltInLength⟩
    rw [hcall result hmessage]
    exact tried_known_sender hknown (by rw [List.length_set, hlength])

/-- `CQ <...> FN42` -/
def unresolvedCq : SentMessage where
  callTo := .cq
  sender := .unresolved
  extra := bytes "FN42"
  callTo_valid := trivial
  sender_valid := trivial
  extra_valid := .grid (by decide) (by decide)

/-- The sender of a CQ is unresolved, and the grid behind it is taken for the sender. -/
theorem grid_taken_for_sender : ¬ SenderAgrees unresolvedCq := by
  intro hagrees
  have hresult := (hagrees
    ⟨.nan false, .nan false, .nan false, noCall, noCall, bytes "CQ <...> FN42"⟩
    ⟨.nan false, .nan false, .nan false, noCall, noCall, []⟩ (by decide) rfl rfl).1
  exact absurd hresult (by decide)

end AirspyhfWsprd.Jt9
