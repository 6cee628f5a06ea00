import AirspyhfWsprd.Library.CText
import Mathlib.Data.List.DropRight
import Mathlib.Data.List.Nodup

/-!
Bands and the comma-separated list of bands that the receiver hops over. A plan
has at most sixteen entries, by construction.
-/

namespace AirspyhfWsprd.Bands

open Library

/-- `struct wspr_hop_band` -/
structure WsprHopBand where
  name : CString
  frequencyHz : UInt32
  databaseBand : Int32
deriving DecidableEq

def wsprMaxHopBands : Nat := 16

/-- `struct wspr_hop_plan`: the first `count` entries of the array. -/
structure WsprHopPlan where
  bands : List WsprHopBand
  fits : bands.length ≤ wsprMaxHopBands
deriving DecidableEq

/-- `memset(plan, 0, sizeof(*plan))` -/
def WsprHopPlan.empty : WsprHopPlan := ⟨[], Nat.zero_le _⟩

/-- `plan->bands[plan->count++] = band` -/
def WsprHopPlan.add (plan : WsprHopPlan) (band : WsprHopBand)
    (hroom : plan.bands.length < wsprMaxHopBands) : WsprHopPlan where
  bands := plan.bands ++ [band]
  fits := by
    rw [List.length_append, List.length_singleton]
    exact hroom

@[simp] theorem WsprHopPlan.bands_add (plan : WsprHopPlan) (band : WsprHopBand)
    (hroom : plan.bands.length < wsprMaxHopBands) :
    (plan.add band hroom).bands = plan.bands ++ [band] := rfl

theorem WsprHopPlan.ext_bands {plan plan' : WsprHopPlan} (h : plan.bands = plan'.bands) :
    plan = plan' := by
  cases plan
  cases plan'
  subst h
  rfl

structure BandFrequency where
  aliasName : CString
  canonicalName : CString
  frequencyHz : UInt32
  databaseBand : Int32

def bandFrequencies : List BandFrequency :=
  [⟨bytes "lf", bytes "2200m", 136000, -1⟩,
   ⟨bytes "2200m", bytes "2200m", 136000, -1⟩,
   ⟨bytes "mf", bytes "630m", 474200, 0⟩,
   ⟨bytes "630m", bytes "630m", 474200, 0⟩,
   ⟨bytes "160m", bytes "160m", 1836600, 1⟩,
   ⟨bytes "80m", bytes "80m", 3568600, 3⟩,
   ⟨bytes "60m", bytes "60m", 5287200, 5⟩,
   ⟨bytes "40m", bytes "40m", 7038600, 7⟩,
   ⟨bytes "30m", bytes "30m", 10138700, 10⟩,
   ⟨bytes "20m", bytes "20m", 14095600, 14⟩,
   ⟨bytes "17m", bytes "17m", 18104600, 18⟩,
   ⟨bytes "15m", bytes "15m", 21094600, 21⟩,
   ⟨bytes "12m", bytes "12m", 24924600, 24⟩,
   ⟨bytes "10m", bytes "10m", 28124600, 28⟩,
   ⟨bytes "4m", bytes "4m", 70091000, 70⟩,
   ⟨bytes "2m", bytes "2m", 144489000, 144⟩,
   ⟨bytes "1.25m", bytes "1.25m", 222280000, 222⟩,
   ⟨bytes "1m25", bytes "1.25m", 222280000, 222⟩]

def ft8BandFrequencies : List BandFrequency :=
  [⟨bytes "160m", bytes "160m", 1840000, 1⟩,
   ⟨bytes "80m", bytes "80m", 3573000, 3⟩,
   ⟨bytes "60m", bytes "60m", 5357000, 5⟩,
   ⟨bytes "40m", bytes "40m", 7074000, 7⟩,
   ⟨bytes "30m", bytes "30m", 10136000, 10⟩,
   ⟨bytes "20m", bytes "20m", 14074000, 14⟩,
   ⟨bytes "17m", bytes "17m", 18100000, 18⟩,
   ⟨bytes "15m", bytes "15m", 21074000, 21⟩,
   ⟨bytes "12m", bytes "12m", 24915000, 24⟩,
   ⟨bytes "10m", bytes "10m", 28074000, 28⟩]

/-- `strcasecmp(left, right) == 0` -/
def sameCaseless (left right : CString) : Bool := left.map tolower == right.map tolower

/-- The search of `find_band` and `find_ft8_band`. -/
def findInTable (table : List BandFrequency) (name : CString) : Option BandFrequency :=
  table.find? fun band => sameCaseless name band.aliasName

def findBand : CString → Option BandFrequency := findInTable bandFrequencies

def findFt8Band : CString → Option BandFrequency := findInTable ft8BandFrequencies

/-- A field without the white space around it. -/
def trimmed (field : CString) : CString := (field.dropWhile isspace).rdropWhile isspace

def BandFrequency.hopBand (band : BandFrequency) : WsprHopBand :=
  ⟨band.canonicalName, band.frequencyHz, band.databaseBand⟩

/-- The loop of `hop_plan_parse` over the fields that are left. It ends without a plan at a
field that names no band, at a band that is in the plan already, and when there are more fields
than places. -/
def hopPlanParseLoop (find : CString → Option BandFrequency) :
    WsprHopPlan → List CString → Option WsprHopPlan
  | plan, [] => some plan
  | plan, field :: rest =>
      match find (trimmed field) with
      | none => none
      | some band =>
          if hroom : plan.bands.length < wsprMaxHopBands then
            if plan.bands.any (·.name == band.canonicalName) then none
            -- `name` is an array of eight characters
            else if 8 ≤ band.canonicalName.length then none
            -- nothing behind the last comma
            else if rest = [[]] then none
            else hopPlanParseLoop find (plan.add band.hopBand hroom) rest
          else none

/-- `hop_plan_parse`: the plan where it returns true. The buffer has room for 255
characters. -/
def hopPlanParse (find : CString → Option BandFrequency) (list : CString) : Option WsprHopPlan :=
  if list = [] ∨ 256 ≤ list.length then none
  else
    match hopPlanParseLoop find .empty (list.splitOn ','.toUInt8) with
    | none => none
    | some plan => if 2 ≤ plan.bands.length then some plan else none

def wsprHopPlanParse : CString → Option WsprHopPlan := hopPlanParse findBand

def ft8HopPlanParse : CString → Option WsprHopPlan := hopPlanParse findFt8Band

example : (wsprHopPlanParse (bytes " LF,20m ,1m25")).map (fun plan => plan.bands.map (·.name)) =
    some [bytes "2200m", bytes "20m", bytes "1.25m"] := by decide

/-- What `hop_plan_parse` keeps true of the plan it builds. -/
structure PlanBuilt (table : List BandFrequency) (plan : WsprHopPlan) : Prop where
  distinct : (plan.bands.map (·.name)).Nodup
  listed : ∀ band ∈ plan.bands, ∃ entry ∈ table, entry.hopBand = band

theorem planBuilt_empty (table : List BandFrequency) : PlanBuilt table .empty :=
  ⟨List.nodup_nil, fun band h => by cases h⟩

/-- A plan built from a table stays one when the hop band of an entry is added whose name is
not in the plan yet. -/
theorem PlanBuilt.add {table : List BandFrequency} {plan : WsprHopPlan} {entry : BandFrequency}
    (h : PlanBuilt table plan) (hentry : entry ∈ table)
    (hnew : plan.bands.any (·.name == entry.canonicalName) = false)
    (hroom : plan.bands.length < wsprMaxHopBands) :
    PlanBuilt table (plan.add entry.hopBand hroom) := by
  rw [List.any_eq_false] at hnew
  constructor
  · rw [WsprHopPlan.bands_add, List.map_append, List.map_singleton]
    apply List.Nodup.append h.distinct (List.nodup_singleton _)
    rw [List.disjoint_singleton]
    intro hmem
    obtain ⟨band, hband, hname⟩ := List.mem_map.mp hmem
    exact hnew band hband (beq_iff_eq.mpr hname)
  · intro band hband
    rcases List.mem_append.mp hband with hold | hnewest
    · exact h.listed band hold
    · exact ⟨entry, hentry, (List.mem_singleton.mp hnewest).symm⟩

/-- The parser of hop plans adds nothing but entries of its table, each name once. Induction on
the fields that are left. -/
theorem hopPlanParseLoop_built {table : List BandFrequency} {plan parsed : WsprHopPlan}
    {fields : List CString} (h : PlanBuilt table plan)
    (hparse : hopPlanParseLoop (findInTable table) plan fields = some parsed) :
    PlanBuilt table parsed := by
  induction fields generalizing plan with
  | nil =>
      obtain rfl := Option.some.inj hparse
      exact h
  | cons field rest ih =>
      rw [hopPlanParseLoop] at hparse
      split at hparse
      · cases hparse
      rename_i entry hfound
      split at hparse
      · rename_i hroom
        split at hparse
        · cases hparse
        rename_i hnew
        split at hparse
        · cases hparse
        split at hparse
        · cases hparse
        · exact ih (h.add (List.mem_of_find?_eq_some hfound) (Bool.eq_false_iff.mpr hnew) hroom)
            hparse
      · cases hparse

/-- An accepted hop plan is built from the table, and has two bands or more: a list of one band
is refused. -/
theorem hopPlanParse_built {table : List BandFrequency} {list : CString} {plan : WsprHopPlan}
    (h : hopPlanParse (findInTable table) list = some plan) :
    PlanBuilt table plan ∧ 2 ≤ plan.bands.length := by
  rw [hopPlanParse] at h
  split at h
  · cases h
  split at h
  · cases h
  rename_i parsed hloop
  split at h
  · rename_i hcount
    obtain rfl := Option.some.inj h
    exact ⟨hopPlanParseLoop_built (planBuilt_empty table) hloop, hcount⟩
  · cases h

theorem PlanBuilt.nodup {table : List BandFrequency} {plan : WsprHopPlan}
    (h : PlanBuilt table plan) : plan.bands.Nodup :=
  List.Nodup.of_map _ h.distinct

end AirspyhfWsprd.Bands
