import AirspyhfWsprd.Bands.HopSchedule
import AirspyhfWsprd.Library.Scanf

/-!
The three parsers of band advice from the network. Each reads a text of arbitrary
bytes and gives a plan made of the candidates' own entries, or none.
-/

namespace AirspyhfWsprd.Bands

open Library

def advisorResultBands : Nat := 4

/-- `sscanf(row, "%d\t%llu\t%llu%c", ...) == 3` -/
def scanAdvisorRow (row : CString) : Option (Int32 × UInt64 × UInt64) := do
  let (databaseBand, rest) ← scanInt row
  let (stations, rest) ← scanUnsignedLong (skipSpace rest)
  let (spots, rest) ← scanUnsignedLong (skipSpace rest)
  if rest = [] then some (databaseBand, stations, spots) else none

/-- The loop over the candidates for one row: the first one of this band, once. -/
def rankBand (candidates ranked : WsprHopPlan) (databaseBand : Int32)
    (hroom : ranked.bands.length < wsprMaxHopBands) : WsprHopPlan :=
  match candidates.bands.find? fun band => band.databaseBand == databaseBand with
  | none => ranked
  | some band =>
      if planContainsDatabaseBand ranked databaseBand then ranked else ranked.add band hroom

/-- The loop of `wspr_advisor_parse_response` over the lines that are left. It gives up at the
first line that is not a row, and reads no further when the ranking is full. -/
def wsprAdvisorLoop (candidates : WsprHopPlan) : WsprHopPlan → List CString → Option WsprHopPlan
  | ranked, [] => some ranked
  | ranked, line :: lines =>
      if hcount : ranked.bands.length < advisorResultBands then
        if line.length = 0 ∨ 128 ≤ line.length then none
        else
          match scanAdvisorRow line with
          | none => none
          | some (databaseBand, stations, spots) =>
              if stations = 0 ∨ spots = 0 then none
              else
                wsprAdvisorLoop candidates
                  (rankBand candidates ranked databaseBand (Nat.lt_of_lt_of_le hcount (by decide)))
                  lines
      else some ranked

def wsprAdvisorParseResponse (candidates : WsprHopPlan) (response : CString) :
    Option WsprHopPlan :=
  match wsprAdvisorLoop candidates .empty (separated '\n'.toUInt8 response) with
  | none => none
  | some ranked => if ranked.bands.length < 2 then none else some ranked

example : (wsprAdvisorParseResponse examplePlan (bytes "7\t12\t30\n28 2 2\n")).map
    (fun plan => plan.bands.map (·.name)) = some [bytes "40m", bytes "10m"] := by decide

/-- `dial` itself, or a frequency in the passband above it. -/
def nearDial (frequency : UInt64) (dial : UInt32) : Bool :=
  frequency.toNat == dial.toNat ||
    (dial.toNat + 200 ≤ frequency.toNat && frequency.toNat ≤ dial.toNat + 3000)

theorem empty_hasRoom : WsprHopPlan.empty.bands.length < wsprMaxHopBands := by decide

/-- The loop of `ft8_advisor_parse_response` over the lines that are left: what it returns, and
the plan it leaves. -/
def ft8AdvisorLoop (candidates recommended : WsprHopPlan) : List CString → Bool × WsprHopPlan
  | [] => (false, recommended)
  | line :: lines =>
      if 128 ≤ line.length then (false, recommended)
      else
        let position := skipSpace line
        if position = [] ∨ position.head? = some '#'.toUInt8 then
          ft8AdvisorLoop candidates recommended lines
        else
          match strtoul position with
          | none => (false, recommended)
          | some (frequency, overflow, behind) =>
              if overflow ∨ frequency = 0 ∨ 2 ^ 32 ≤ frequency.toNat ∨
                  behind.head?.any (!isspace ·) then (false, recommended)
              else
                match candidates.bands.find? fun band => nearDial frequency band.frequencyHz with
                | some band => (true, WsprHopPlan.empty.add band empty_hasRoom)
                | none => ft8AdvisorLoop candidates recommended lines

/-- `ft8_advisor_parse_response`: what it returns, and what it leaves in `*recommended`. -/
def ft8AdvisorParseInto (candidates : WsprHopPlan) (response : CString) : Bool × WsprHopPlan :=
  ft8AdvisorLoop candidates .empty (separated '\n'.toUInt8 response)

/-- The plan that `ft8_advisor_parse_response` accepts. -/
def ft8AdvisorParseResponse (candidates : WsprHopPlan) (response : CString) :
    Option WsprHopPlan :=
  let (accepted, recommended) := ft8AdvisorParseInto candidates response
  if accepted then some recommended else none

def backslash : UInt8 := '\\'.toUInt8

def quote : UInt8 := '"'.toUInt8

/-- The loop that `json_array_end` and `json_object_end` share: the text in front of
the bracket that closes the first open one, and the text behind it. -/
def closingBracket (opening closing : UInt8) :
    (depth : UInt32) → (inString escaped : Bool) → CString → Option (CString × CString)
  | _, _, _, [] => none
  | depth, inString, escaped, c :: rest =>
      let kept (result : Option (CString × CString)) :=
        result.map fun (inside, behind) => (c :: inside, behind)
      if inString then
        if escaped then kept (closingBracket opening closing depth true false rest)
        else if c = backslash then kept (closingBracket opening closing depth true true rest)
        else if c = quote then kept (closingBracket opening closing depth false false rest)
        else kept (closingBracket opening closing depth true false rest)
      else if c = quote then kept (closingBracket opening closing depth true escaped rest)
      else if c = opening then
        kept (closingBracket opening closing (depth + 1) false escaped rest)
      else if c = closing then
        if depth - 1 = 0 then some ([], rest)
        else kept (closingBracket opening closing (depth - 1) false escaped rest)
      else kept (closingBracket opening closing depth false escaped rest)

/-- `json_array_end`: the array in front of its end, and the text behind it. -/
def jsonArrayEnd (text : CString) : Option (CString × CString) :=
  closingBracket '['.toUInt8 ']'.toUInt8 1 false false text

/-- `json_object_end` in the text up to `limit`. -/
def jsonObjectEnd (text : CString) : Option (CString × CString) :=
  closingBracket '{'.toUInt8 '}'.toUInt8 1 false false text

/-- The loop over a key: the key, and the text behind its closing quote. -/
def keyEnd : CString → Option (CString × CString)
  | [] => none
  | c :: rest =>
      if c = quote then some ([], rest)
      else if c = backslash then
        match rest with
        | [] => none
        | e :: rest => (keyEnd rest).map fun (key, behind) => (c :: e :: key, behind)
      else (keyEnd rest).map fun (key, behind) => (c :: key, behind)

/-- Behind a key there is less text than in front of it. The scanners over objects recurse on
the text behind a key, and this is what makes them end. -/
theorem keyEnd_length {text key behind : CString} (h : keyEnd text = some (key, behind)) :
    behind.length < text.length := by
  fun_induction keyEnd text generalizing key behind with
  | case1 => cases h
  | case2 rest =>
      obtain ⟨-, rfl⟩ := Prod.mk.inj (Option.some.inj h)
      exact Nat.lt_succ_self _
  | case3 => cases h
  | case4 hquote e rest ih =>
      obtain ⟨⟨inner, tail⟩, hinner, heq⟩ := Option.map_eq_some_iff.mp h
      obtain ⟨-, rfl⟩ := Prod.mk.inj heq
      exact Nat.lt_add_right 2 (ih hinner)
  | case5 c rest hquote hback ih =>
      obtain ⟨⟨inner, tail⟩, hinner, heq⟩ := Option.map_eq_some_iff.mp h
      obtain ⟨-, rfl⟩ := Prod.mk.inj heq
      exact Nat.lt_succ_of_lt (ih hinner)

theorem skipSpace_length (text : CString) : (skipSpace text).length ≤ text.length :=
  List.length_dropWhile_le _ _

/-- Behind the closing bracket there is less text than in front of it, whatever strings and
nested brackets stand between; each character that is passed over makes the rest shorter. -/
theorem closingBracket_length {opening closing : UInt8} {depth : UInt32} {inString escaped : Bool}
    {text inside behind : CString}
    (h : closingBracket opening closing depth inString escaped text = some (inside, behind)) :
    behind.length < text.length := by
  have hkept {c : UInt8} {result : Option (CString × CString)} {rest : CString}
      (hresult : ∀ inside behind, result = some (inside, behind) → behind.length < rest.length)
      {inside behind : CString}
      (h : (result.map fun (inside, behind) => (c :: inside, behind)) = some (inside, behind)) :
      behind.length < (c :: rest).length := by
    obtain ⟨⟨inner, tail⟩, hinner, heq⟩ := Option.map_eq_some_iff.mp h
    obtain ⟨-, rfl⟩ := Prod.mk.inj heq
    exact Nat.lt_succ_of_lt (hresult _ _ hinner)
  induction text generalizing depth inString escaped inside behind with
  | nil => cases h
  | cons c rest ih =>
      rw [closingBracket] at h
      dsimp only at h
      split at h
      · split at h
        · exact hkept (fun _ _ h => ih h) h
        split at h
        · exact hkept (fun _ _ h => ih h) h
        split at h
        · exact hkept (fun _ _ h => ih h) h
        · exact hkept (fun _ _ h => ih h) h
      split at h
      · exact hkept (fun _ _ h => ih h) h
      split at h
      · exact hkept (fun _ _ h => ih h) h
      split at h
      · split at h
        · obtain ⟨-, rfl⟩ := Prod.mk.inj (Option.some.inj h)
          exact Nat.lt_succ_self _
        · exact hkept (fun _ _ h => ih h) h
      · exact hkept (fun _ _ h => ih h) h

theorem jsonObjectValue_shorter {c d : UInt8} {rest key behind text next : CString}
    (hkey : keyEnd rest = some (key, behind)) (hcolon : skipSpace behind = d :: text)
    (hnext : next.length ≤ text.length) : next.length < (c :: rest).length := by
  have hrest := keyEnd_length hkey
  have hbehind := skipSpace_length behind
  rw [hcolon, List.length_cons] at hbehind
  rw [List.length_cons]
  omega

set_option linter.unusedVariables false in
/-- `json_object_value`: the object's text from the value of the first such key on. -/
def jsonObjectValue (wantedKey : CString) : CString → Option CString
  | [] => none
  | c :: rest =>
      if c ≠ quote then jsonObjectValue wantedKey rest
      else
        match hkey : keyEnd rest with
        | none => none
        | some (key, behind) =>
            match hcolon : skipSpace behind with
            | [] => none
            | d :: text =>
                if d ≠ ':'.toUInt8 then jsonObjectValue wantedKey text
                else if key = wantedKey then some (skipSpace text)
                else jsonObjectValue wantedKey (skipSpace text)
  termination_by text => text.length
  decreasing_by
    · exact Nat.lt_succ_self _
    · exact jsonObjectValue_shorter hkey hcolon (Nat.le_refl _)
    · exact jsonObjectValue_shorter hkey hcolon (skipSpace_length text)

/-- `counts[index]++` for the first candidate that matches, unless it is `ULONG_MAX`. -/
def countFirst (matching : WsprHopBand → Bool) : List WsprHopBand → List UInt64 → List UInt64
  | band :: bands, count :: counts =>
      if matching band then (if count ≠ 2 ^ 64 - 1 then count + 1 else count) :: counts
      else count :: countFirst matching bands counts
  | _, counts => counts

def countMonitorBands (candidates : WsprHopPlan) (value : CString) (counts : List UInt64) :
    List UInt64 :=
  (separated ','.toUInt8 value).foldl
    (fun counts field =>
      countFirst (fun band => band.name == trimmed field) candidates.bands counts)
    counts

/-- From the band's number of megahertz to the next one; 10 m is two megahertz wide. -/
def inDatabaseBand (frequency : UInt64) (band : WsprHopBand) : Bool :=
  let lower := UInt64.ofInt band.databaseBand.toInt * 1000000
  let upper := if band.databaseBand = 28 then 30000000 else lower + 1000000
  lower ≤ frequency && frequency < upper

def countMonitorFrequency (candidates : WsprHopPlan) (frequency : UInt64) (counts : List UInt64) :
    List UInt64 :=
  countFirst (inDatabaseBand frequency) candidates.bands counts

/-- One receiver: the object's text, and the response from its closing brace on. -/
def countMonitorObject (candidates : WsprHopPlan) (object after : CString)
    (counts : List UInt64) : Option (List UInt64) :=
  match jsonObjectValue (bytes "bands") object with
  | some [] => none
  | some (c :: value) =>
      if c ≠ quote then none
      else
        match value.span (· != quote) with
        | (_, []) => none
        | (names, _ :: _) =>
            if backslash ∈ names then none else some (countMonitorBands candidates names counts)
  | none =>
      match jsonObjectValue (bytes "frequency") object with
      | none => some counts
      | some value =>
          match strtoul (value ++ after) with
          | none => none
          | some (frequency, overflow, behind) =>
              if overflow ∨ behind.length < after.length then none
              else some (countMonitorFrequency candidates frequency counts)

set_option linter.unusedVariables false in
/-- The loop over the objects in the array's text. `strtoul` reads on beyond an object, so each
one comes with the text behind it: the rest of the array and the response behind that. -/
def monitorLoop (candidates : WsprHopPlan) (after : CString) (text : CString)
    (counts : List UInt64) : Option (List UInt64) :=
  match hobject : text.dropWhile (· != '{'.toUInt8) with
  | [] => some counts
  | _ :: rest =>
      match hend : jsonObjectEnd rest with
      | none => none
      | some (object, behind) =>
          match countMonitorObject candidates object ('}'.toUInt8 :: (behind ++ after)) counts with
          | none => none
          | some counts => monitorLoop candidates after behind counts
  termination_by text.length
  decreasing_by
    have hbehind := closingBracket_length hend
    have htext := text.length_dropWhile_le (· != '{'.toUInt8)
    rw [hobject, List.length_cons] at htext
    omega

/-- One pass over the counts: the first largest one that is not selected, if it is not 0. -/
def bestCandidate (selected : List Nat) :
    (index : Nat) → (best : Option Nat) → (bestCount : UInt64) → List UInt64 → Option Nat
  | _, best, _, [] => best
  | index, best, bestCount, count :: counts =>
      if index ∉ selected ∧ bestCount < count then
        bestCandidate selected (index + 1) (some index) count counts
      else bestCandidate selected (index + 1) best bestCount counts

/-- The places of the best candidates, best first, behind those already selected. -/
def bestCandidates (counts : List UInt64) : (room : Nat) → (selected : List Nat) → List Nat
  | 0, selected => selected
  | room + 1, selected =>
      match bestCandidate selected 0 none 0 counts with
      | none => selected
      | some best => bestCandidates counts room (selected ++ [best])

theorem bestCandidates_length (counts : List UInt64) (room : Nat) (selected : List Nat) :
    (bestCandidates counts room selected).length ≤ selected.length + room := by
  induction room generalizing selected with
  | zero => exact Nat.le_refl _
  | succ room ih =>
      rw [bestCandidates]
      split
      · omega
      · rename_i best _
        have hlength := ih (selected ++ [best])
        rw [List.length_append, List.length_singleton] at hlength
        omega

/-- `ranked->bands[ranked->count++] = candidates->bands[best]` for these places. -/
def rankMonitors (candidates : WsprHopPlan) (counts : List UInt64) : WsprHopPlan where
  bands := (bestCandidates counts advisorResultBands []).filterMap (candidates.bands[·]?)
  fits := Nat.le_trans (List.length_filterMap_le _ _)
    (Nat.le_trans (bestCandidates_length counts _ []) (by decide))

/-- The text behind this character, with white space in front of it. -/
def skipCharacter (expected : UInt8) (text : CString) : Option CString :=
  match skipSpace text with
  | [] => none
  | c :: rest => if c = expected then some rest else none

/-- What the response says about the monitors: a count for each candidate. -/
def monitorCounts (candidates : WsprHopPlan) (response : CString) : Option (List UInt64) := do
  let key := quote :: (bytes "activeReceiver" ++ [quote])
  let position ← strstr key response
  let position ← skipCharacter ':'.toUInt8 (position.drop key.length)
  let position ← skipCharacter '['.toUInt8 position
  let (array, behind) ← jsonArrayEnd position
  monitorLoop candidates (']'.toUInt8 :: behind) array (candidates.bands.map fun _ => 0)

def ft8MonitorParseResponse (candidates : WsprHopPlan) (response : CString) :
    Option WsprHopPlan :=
  match monitorCounts candidates response with
  | none => none
  | some counts =>
      let ranked := rankMonitors candidates counts
      if ranked.bands.length < 2 then none else some ranked

end AirspyhfWsprd.Bands
