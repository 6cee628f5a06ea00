import AirspyhfWsprd.Jt9.DecodeLine
import AirspyhfWsprd.Library.MergeUnique

/-!
The merge of the two FT8 decoders' results. A jt9 result is a duplicate of an entry
with the same message within 10 Hz; an entry without a callsign takes the
duplicate's callsign and grid.
-/

namespace AirspyhfWsprd.Jt9

open Library

/-- The test for a duplicate: `strcmp` of the messages, and at most 10 Hz. -/
def sameTransmission (existing addition : Ft8DecodeResult) : Bool :=
  existing.message == addition.message &&
    existing.audioFrequencyHz.within 10 addition.audioFrequencyHz

/-- What a duplicate does to the entry it duplicates. -/
def fillSender (existing addition : Ft8DecodeResult) : Ft8DecodeResult :=
  if cstr existing.transmitterCall = [] ∧ cstr addition.transmitterCall ≠ [] then
    {existing with
      transmitterCall := printInto existing.transmitterCall 13 (cstr addition.transmitterCall)
      transmitterGrid := printInto existing.transmitterGrid 7 (cstr addition.transmitterGrid)}
  else existing

/-- `jt9_merge_results`: the first entries of the array that the result counts. -/
def jt9MergeResults (primary : List Ft8DecodeResult) (capacity : Nat)
    (additional : List Ft8DecodeResult) : List Ft8DecodeResult :=
  if capacity < primary.length then primary
  else mergeUnique sameTransmission fillSender capacity primary additional

/-- All fields but the callsign and the grid stay, and these stay unless the callsign
was empty. -/
structure Kept (before after : Ft8DecodeResult) : Prop where
  message : after.message = before.message
  snr : after.snr = before.snr
  dt : after.dt = before.dt
  audioFrequencyHz : after.audioFrequencyHz = before.audioFrequencyHz
  sender : cstr before.transmitterCall ≠ [] → after = before

/-- The entry names the sender if the addition does. -/
def NamesSender (entry addition : Ft8DecodeResult) : Prop :=
  cstr addition.transmitterCall ≠ [] → cstr entry.transmitterCall ≠ []

theorem fillSender_kept (existing addition : Ft8DecodeResult) :
    Kept existing (fillSender existing addition) := by
  rw [fillSender]
  split
  · rename_i h
    exact ⟨rfl, rfl, rfl, rfl, fun hcall => absurd h.1 hcall⟩
  · exact ⟨rfl, rfl, rfl, rfl, fun _ => rfl⟩

theorem fillSender_names (existing addition : Ft8DecodeResult) :
    NamesSender (fillSender existing addition) addition := by
  intro hcall
  rw [fillSender]
  split
  · rw [cstr_printInto _ _ cstr_ne_zero]
    exact fun hempty => hcall (List.take_eq_nil_iff.mp hempty |>.resolve_left (by decide))
  · rename_i h
    exact fun hempty => h ⟨hempty, hcall⟩

/-- The comparison of two results and the filling in of a sender follow the rules of a merge:
filling in changes nothing that the comparison looks at, and a sender that was filled in stays.
-/
theorem mergeRules : MergeRules sameTransmission fillSender Kept NamesSender where
  refl _ := ⟨rfl, rfl, rfl, rfl, fun _ => rfl⟩
  trans {first second third} hfirst hsecond := by
    refine ⟨hsecond.message.trans hfirst.message, hsecond.snr.trans hfirst.snr,
      hsecond.dt.trans hfirst.dt, hsecond.audioFrequencyHz.trans hfirst.audioFrequencyHz, ?_⟩
    intro hcall
    have hsame := hfirst.sender hcall
    rw [← hsame] at hcall
    exact (hsecond.sender hcall).trans hsame
  fill_kept {entry addition} _ := fillSender_kept entry addition
  same_left {entry kept} h other := by
    rw [sameTransmission, sameTransmission, h.message, h.audioFrequencyHz]
  same_right {entry kept} h other := by
    rw [sameTransmission, sameTransmission, h.message, h.audioFrequencyHz]
  fill_serves {entry addition} _ := fillSender_names entry addition
  kept_serves {entry kept addition} hkept hserves hcall := by
    rw [hkept.sender (hserves hcall)]
    exact hserves hcall
  serves_self _ := id
  served_fill {entry addition} hserves := by
    rw [fillSender, if_neg]
    intro h
    exact hserves h.2 h.1

/-- A merge of `additional` into `primary`: what the program relies on when it joins the
results of the two decoders. -/
structure Merged (primary additional : List Ft8DecodeResult) (capacity : Nat)
    (result : List Ft8DecodeResult) : Prop where
  fits : result.length ≤ capacity
  front : List.Forall₂ Kept primary (result.take primary.length)
  /-- Behind them come additional results in their order, changed at most in an empty
  callsign and its grid. -/
  appended : ∃ chosen, chosen.Sublist additional ∧
    List.Forall₂ Kept chosen (result.drop primary.length)
  fresh : FreshFrom sameTransmission primary.length result
  covered : result.length < capacity → ∀ addition ∈ additional,
    Covers sameTransmission NamesSender result addition
  again : jt9MergeResults result capacity additional = result

theorem sameTransmission_self {result : Ft8DecodeResult}
    (h : result.audioFrequencyHz.exact.isSome) : sameTransmission result result = true := by
  rw [sameTransmission, BEq.rfl, FloatValue.within_self (by decide) h]
  rfl

/-- The merge of two lists is the union without duplicates, up to its capacity, in which the
first list comes first and an entry without a sender has that of its duplicate. -/
theorem jt9MergeResults_merged {primary additional : List Ft8DecodeResult} {capacity : Nat}
    (hcapacity : primary.length ≤ capacity)
    (hexact : ∀ addition ∈ additional, addition.audioFrequencyHz.exact.isSome) :
    Merged primary additional capacity (jt9MergeResults primary capacity additional) := by
  have hself : ∀ addition ∈ additional, sameTransmission addition addition = true :=
    fun addition h => sameTransmission_self (hexact addition h)
  have hfits : (mergeUnique sameTransmission fillSender capacity primary additional).length ≤
      capacity := mergeUnique_length hcapacity mergeRules
  rw [jt9MergeResults, if_neg (Nat.not_lt_of_le hcapacity)]
  constructor
  · exact hfits
  · exact mergeUnique_take mergeRules capacity primary additional
  · obtain ⟨chosen, hchosen, hkept⟩ := mergeUnique_kept mergeRules capacity primary additional
    have hbehind := List.forall₂_drop primary.length hkept
    rw [List.drop_left] at hbehind
    exact ⟨chosen, hchosen, hbehind⟩
  · exact mergeUnique_fresh mergeRules capacity additional (freshFrom_length primary)
  · exact mergeUnique_covers mergeRules hself
  · rw [jt9MergeResults, if_neg (Nat.not_lt_of_le hfits), mergeUnique_again mergeRules hself]

def cqAt (hertz : Nat) (call : CString) : Ft8DecodeResult where
  snr := .finite false 0 0
  dt := .finite false 0 0
  audioFrequencyHz := .finite false hertz 0
  transmitterCall := printInto (List.replicate 13 0) 13 call
  transmitterGrid := List.replicate 7 0
  message := bytes "CQ VU3CER MK68"

/-- The first addition duplicates the primary entry, the second does not. -/
theorem twoResults_merged :
    Merged [cqAt 1000 []] [cqAt 1007 (bytes "VU3CER"), cqAt 1020 (bytes "VU3CER")] 4
      (jt9MergeResults [cqAt 1000 []] 4
        [cqAt 1007 (bytes "VU3CER"), cqAt 1020 (bytes "VU3CER")]) :=
  jt9MergeResults_merged (by decide) (by decide)

/-- An appended result takes the callsign of a later duplicate. -/
theorem appended_result_changed :
    ¬ ∀ (primary additional : List Ft8DecodeResult) (capacity : Nat), primary.length ≤ capacity →
      (∀ addition ∈ additional, addition.audioFrequencyHz.exact.isSome) →
        ((jt9MergeResults primary capacity additional).drop primary.length).Sublist additional := by
  intro h
  have hsublist := h [] [cqAt 1000 [], cqAt 1007 (bytes "VU3CER")] 4 (by decide) (by decide)
  have hfields := hsublist.map fun result => (result.transmitterCall, result.audioFrequencyHz)
  exact absurd hfields (by decide +kernel)

end AirspyhfWsprd.Jt9
