import AirspyhfWsprd.Wspr.MessageRoundTrip

/-!
The messages that one run of the core decodes, and what its tables hold after them: a hash
is printed as the callsign that was heard last with it.
-/

namespace AirspyhfWsprd.Wspr

open Library

/-- What the main loop does with the tables for a decoded message: it is unpacked, and when it
is printed and its signal is subtracted, it is packed again, with the same tables. -/
def decodeMessage (tmp : List UInt8) (subtraction : Bool) (tables : HashTables)
    (message : List UInt8) : HashTables :=
  let unpacked := unpk tables message
  if subtraction ∧ ¬ unpacked.noprint then
    match getWsprChannelSymbols tmp unpacked.tables
        ((unpacked.message.map WsprMessage.callLocPow).getD []) with
    | .sent _ _ tables => tables
    | _ => unpacked.tables
  else unpacked.tables

/-- The tables behind these messages -/
def tablesAfter (tmp : List UInt8) (subtraction : Bool) (tables : HashTables)
    (messages : List (List UInt8)) : HashTables :=
  messages.foldl (decodeMessage tmp subtraction) tables

theorem HashTables.WellFormed.getWsprChannelSymbols {tables : HashTables} (h : tables.WellFormed)
    {tmp data symbols : List UInt8} {rawmessage : CString} {sender : HashTables}
    (hsent : Wspr.getWsprChannelSymbols tmp tables rawmessage = .sent data symbols sender) :
    sender.WellFormed := by
  unfold Wspr.getWsprChannelSymbols at hsent
  split at hsent
  · cases hsent
  · cases hsent
  · cases hsent
    exact h.unpk _

theorem HashTables.WellFormed.decodeMessage {tables : HashTables} (h : tables.WellFormed)
    (tmp : List UInt8) (subtraction : Bool) (message : List UInt8) :
    (Wspr.decodeMessage tmp subtraction tables message).WellFormed := by
  have hunpk := h.unpk message
  unfold Wspr.decodeMessage
  simp only
  split
  · split
    · next hsent => exact hunpk.getWsprChannelSymbols hsent
    · exact hunpk
  · exact hunpk

theorem HashTables.WellFormed.tablesAfter {tables : HashTables} (h : tables.WellFormed)
    (tmp : List UInt8) (subtraction : Bool) (messages : List (List UInt8)) :
    (Wspr.tablesAfter tmp subtraction tables messages).WellFormed := by
  induction messages generalizing tables with
  | nil => exact h
  | cons message messages ih => exact ih (h.decodeMessage tmp subtraction message)

/-- **All that a run prints has the form that the spots file needs.** Whatever data is
decoded, in whatever order, and whether or not the signals are subtracted, each callsign in
the table stands at its hash and fits its entry, and each message printed after these has words
of the lengths that the reader of the file takes, but for the message with all seven bits set. -/
theorem decodes_wellFormed (tmp : List UInt8) (subtraction : Bool) (messages : List (List UInt8))
    (message : List UInt8) :
    (∀ slot, (tablesAfter tmp subtraction HashTables.empty messages).hashtab slot ≠ [] →
      ((tablesAfter tmp subtraction HashTables.empty messages).hashtab slot).length ≤ 10 ∧
        callHash ((tablesAfter tmp subtraction HashTables.empty messages).hashtab slot) = slot) ∧
    ((unpk (tablesAfter tmp subtraction HashTables.empty messages) message).noprint = false →
      (unpack50 message).2 % 128 ≠ 127 →
      ∃ printed,
        (unpk (tablesAfter tmp subtraction HashTables.empty messages) message).message =
          some printed ∧ printed.WellFormed) := by
  have hform := HashTables.empty_wellFormed.tablesAfter tmp subtraction messages
  constructor
  · intro slot hne
    obtain ⟨hword, hhash⟩ := hform.callsign slot hne
    exact ⟨hword.length, hhash⟩
  · intro hprint hlast
    obtain ⟨hbits, -⟩ | hprinted := printed_wellFormed hform message hprint
    · exact absurd hbits hlast
    · exact hprinted

/-- The callsign that a message leaves in the table -/
def Unpacked.stored (unpacked : Unpacked) : Option CString :=
  match unpacked.noprint, unpacked.message with
  | false, some (.type1 callsign _ _) => some callsign
  | false, some (.type2 callsign _) => some callsign
  | _, _ => none

theorem unpkType2_stored (tables other : HashTables) (call : CString) (n2 ntype : Nat) :
    (unpkType2 tables call n2 ntype).stored = (unpkType2 other call n2 ntype).stored := by
  unfold unpkType2
  simp only
  generalize (if ntype % 10 > 7 then ntype % 10 - 7
    else if ntype % 10 > 3 then ntype % 10 - 3 else ntype % 10) = nadd
  cases unpackpfx (n2 / 128 + 32768 * (nadd - 1)) call with
  | none => rfl
  | some heard =>
      simp only
      split <;> rfl

theorem unpkType3_stored (tables : HashTables) (call : List UInt8) (n2 : Nat) (ntype : Int) :
    (unpkType3 tables call n2 ntype).stored = none := by
  have hnone : ∀ unpacked : Unpacked, ∀ callsign grid6 ndbm,
      unpacked.message = some (.type3 callsign grid6 ndbm) → unpacked.stored = none := by
    rintro ⟨noprint, message, callsign, tables⟩ call grid6 ndbm hmessage
    simp only at hmessage
    subst hmessage
    cases noprint <;> rfl
  exact hnone _ _ _ _ rfl

/-- Which callsign is stored is decided by the numbers of the message. The tables are only
looked up for the text of a hash. -/
theorem unpkNumbers_stored (tables other : HashTables) (n1 n2 : Nat) :
    (unpkNumbers tables n1 n2).stored = (unpkNumbers other n1 n2).stored := by
  unfold unpkNumbers
  cases unpackcall n1 with
  | none => rfl
  | some call =>
      simp only
      cases unpackgrid n2 with
      | none => rfl
      | some grid =>
          simp only
          split
          · split
            · rfl
            · exact unpkType2_stored tables other _ _ _
          · split
            · rw [unpkType3_stored, unpkType3_stored]
            · rfl

/-- It does not depend on what the tables held. -/
theorem unpk_stored (tables other : HashTables) (message : List UInt8) :
    (unpk tables message).stored = (unpk other message).stored :=
  unpkNumbers_stored tables other _ _

/-- A message leaves every entry of the table as it was but for the entry at the hash of the
callsign that it stores. -/
theorem unpk_hashtab (tables : HashTables) (message : List UInt8) (slot : Nat) :
    (unpk tables message).tables.hashtab slot =
      ((unpk tables message).stored.filter (callHash · = slot)).getD (tables.hashtab slot) := by
  have hstore : ∀ (callsign : CString) (grid : Option CString),
      (tables.store callsign grid).hashtab slot =
        ((some callsign).filter (callHash · = slot)).getD (tables.hashtab slot) := by
    intro callsign grid
    simp only [HashTables.store, Function.update_apply, Option.filter_some, decide_eq_true_eq]
    by_cases hslot : slot = callHash callsign
    · rw [if_pos hslot, if_pos hslot.symm, Option.getD_some]
    · rw [if_neg hslot, if_neg (Ne.symm hslot), Option.getD_none]
  have houtcome := unpk_outcome tables message
  generalize unpk tables message = unpacked at *
  cases houtcome with
  | silent => rfl
  | type1 _ _ _ => exact hstore _ _
  | type2 _ _ => exact hstore _ _
  | type3 _ _ => rfl
  | blank _ _ => rfl

/-- The callsigns that these messages store, in their order -/
def heardCallsigns (messages : List (List UInt8)) : List CString :=
  messages.filterMap fun message => (unpk HashTables.empty message).stored

theorem filterMap_concat {α β : Type*} (f : α → Option β) (items : List α) (item : α) :
    (items ++ [item]).filterMap f = items.filterMap f ++ (f item).toList := by
  rw [List.filterMap_append]
  cases hitem : f item with
  | none => simp [hitem]
  | some value => simp [hitem]

theorem heardCallsigns_concat (messages : List (List UInt8)) (message : List UInt8) :
    heardCallsigns (messages ++ [message]) =
      heardCallsigns messages ++ (unpk HashTables.empty message).stored.toList :=
  filterMap_concat _ messages message

/-- No message stores an empty callsign, so a filled entry is never taken for a free one. -/
theorem heardCallsigns_ne_nil {messages : List (List UInt8)} {callsign : CString}
    (h : callsign ∈ heardCallsigns messages) : callsign ≠ [] := by
  obtain ⟨message, -, hstored⟩ := List.mem_filterMap.mp h
  have houtcome := unpk_outcome HashTables.empty message
  generalize unpk HashTables.empty message = unpacked at *
  cases houtcome with
  | @silent unprinted _ => cases unprinted <;> cases hstored
  | type1 hcall _ _ =>
      cases hstored
      exact hcall.ne_nil
  | type2 hcall _ =>
      cases hstored
      exact hcall.nonempty
  | type3 _ _ => cases hstored
  | blank _ _ => cases hstored

/-- Without subtraction an entry holds the callsign heard last with its hash. -/
theorem hashtab_last (tmp : List UInt8) (tables : HashTables) (messages : List (List UInt8))
    (slot : Nat) :
    (tablesAfter tmp false tables messages).hashtab slot =
      ((heardCallsigns messages).filter (callHash · = slot)).getLast?.getD
        (tables.hashtab slot) := by
  induction messages using List.reverseRecOn with
  | nil => rfl
  | append_singleton messages message ih =>
      have hlast : tablesAfter tmp false tables (messages ++ [message]) =
          (unpk (tablesAfter tmp false tables messages) message).tables := by
        rw [tablesAfter, List.foldl_append, List.foldl_cons, List.foldl_nil, ← tablesAfter]
        simp only [decodeMessage, Bool.false_eq_true, false_and, if_false]
      rw [hlast, unpk_hashtab, ih, unpk_stored _ HashTables.empty, heardCallsigns_concat,
        List.filter_append, List.getLast?_append]
      cases (unpk HashTables.empty message).stored with
      | none => simp
      | some callsign =>
          rw [Option.filter_some]
          by_cases hslot : callHash callsign = slot
          · simp [hslot]
          · simp [hslot]

/-- What is printed for a hash: the callsign in brackets of a printed message -/
def Unpacked.hashed (unpacked : Unpacked) : Option CString :=
  match unpacked.noprint, unpacked.message with
  | false, some (.type3 callsign _ _) => some callsign
  | _, _ => none

/-- **A hash is printed as the callsign heard last with it**, or as `<...>` when none was
heard, whatever messages came before and in between. -/
theorem hashed_callsign_shown (tmp : List UInt8) (messages : List (List UInt8))
    (message : List UInt8) :
    (unpk (tablesAfter tmp false HashTables.empty messages) message).hashed = none ∨
      (unpk (tablesAfter tmp false HashTables.empty messages) message).hashed =
        some ((((heardCallsigns messages).filter
          (callHash · = (unpack50 message).2 / 128)).getLast?.map fun callsign =>
            bytes "<" ++ callsign ++ bytes ">").getD (bytes "<...>")) := by
  have hlast := hashtab_last tmp HashTables.empty messages ((unpack50 message).2 / 128)
  have hshown : (tablesAfter tmp false HashTables.empty messages).bracketed
      ((unpack50 message).2 / 128) =
      (((heardCallsigns messages).filter
        (callHash · = (unpack50 message).2 / 128)).getLast?.map fun callsign =>
          bytes "<" ++ callsign ++ bytes ">").getD (bytes "<...>") := by
    rw [HashTables.bracketed, hlast]
    cases hcalls : ((heardCallsigns messages).filter
        (callHash · = (unpack50 message).2 / 128)).getLast? with
    | none => rfl
    | some callsign =>
        have hmem := List.mem_of_getLast? hcalls
        have hne := heardCallsigns_ne_nil (List.mem_filter.mp hmem).1
        rw [Option.getD_some, if_pos hne]
        rfl
  rw [← hshown]
  have houtcome := unpk_outcome (tablesAfter tmp false HashTables.empty messages) message
  generalize unpk (tablesAfter tmp false HashTables.empty messages) message = unpacked at *
  cases houtcome with
  | @silent unprinted _ => cases unprinted <;> exact .inl rfl
  | type1 _ _ _ => exact .inl rfl
  | type2 _ _ => exact .inl rfl
  | type3 _ _ => exact .inr rfl
  | blank _ _ => exact .inl rfl

end AirspyhfWsprd.Wspr
