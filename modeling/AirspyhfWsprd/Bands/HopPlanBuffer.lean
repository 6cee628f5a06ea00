import AirspyhfWsprd.Bands.HopPlan
import AirspyhfWsprd.Library.CharBuffer

/-!
`hop_plan_parse` as it works on its buffer: each round ends a field at its comma, removes the
white space around it in place, and goes on behind the comma. What it accepts is a list of
aliases of different bands, and nothing else.
-/

namespace AirspyhfWsprd.Bands

open Library

/-- The loop of `hop_plan_parse`, with the plan so far and the place of the next field: what it
returns, and the plan it leaves. -/
def hopPlanFields (find : CString → Option BandFrequency) (plan : WsprHopPlan)
    (buffer : List UInt8) (field : Nat) : Bool × WsprHopPlan :=
  let comma := strchr buffer field ','.toUInt8
  let ended := endAt buffer comma
  let start := pastSpace ended field
  let cut := cutSpace ended start (start + (stringAt ended start).length)
  match find (stringAt cut start) with
  | none => (false, .empty)
  | some band =>
      if hroom : plan.bands.length < wsprMaxHopBands then
        if plan.bands.any (·.name == band.canonicalName) then (false, .empty)
        -- `name` is an array of eight characters
        else if 8 ≤ band.canonicalName.length then (false, .empty)
        else
          let plan := plan.add band.hopBand hroom
          match hcomma : comma with
          | none => (decide (2 ≤ plan.bands.length), plan)
          | some comma =>
              if cut.getD (comma + 1) 0 = 0 then (false, .empty)
              else hopPlanFields find plan cut (comma + 1)
      else (false, .empty)
  termination_by buffer.length - field
  decreasing_by
    have hbounds := strchr_bounds hcomma
    rw [length_cutSpace, length_endAt]
    omega

def bandTable (ft8 : Bool) : List BandFrequency :=
  if ft8 then ft8BandFrequencies else bandFrequencies

/-- `hop_plan_parse`: what it returns, and what it leaves in `*plan`. The buffer is as long as
the text that is printed into it. -/
def hopPlanParseInto (plan : WsprHopPlan) (list : CString) (ft8 : Bool) : Bool × WsprHopPlan :=
  if list = [] ∨ 256 ≤ list.length then (false, plan)
  else hopPlanFields (if ft8 then findFt8Band else findBand) .empty (list ++ [0]) 0

/-- The plan that is left behind a loop with this result. -/
def loopOutcome : Option WsprHopPlan → Bool × WsprHopPlan
  | none => (false, .empty)
  | some plan => (decide (2 ≤ plan.bands.length), plan)

/-- A field that was ended is trimmed in its place: the bytes behind it stay. -/
theorem cutSpace_field (front : List UInt8) {field : CString} (hfield : ∀ c ∈ field, c ≠ 0)
    (behind : List UInt8) {buffer : List UInt8} (hbuffer : buffer = front ++ (field ++ 0 :: behind))
    {start : Nat} (hstart : start = pastSpace buffer front.length) :
    ∃ before, cutSpace buffer start (start + (stringAt buffer start).length) = before ++ behind ∧
      before.length = front.length + field.length + 1 ∧
      stringAt (before ++ behind) start = trimmed field := by
  have hsplit : front ++ (field ++ 0 :: behind) =
      (front ++ field.takeWhile isspace) ++ (field.dropWhile isspace ++ 0 :: behind) := by
    rw [List.append_assoc, ← List.append_assoc (field.takeWhile isspace),
      List.takeWhile_append_dropWhile]
  have htext : ∀ c ∈ field.dropWhile isspace, c ≠ 0 := fun c hc =>
    hfield c ((List.dropWhile_suffix _).subset hc)
  have htrimmed : ∀ c ∈ trimmed field, c ≠ 0 := fun c hc =>
    htext c ((List.rdropWhile_prefix _ _).subset hc)
  have hlength : (field.takeWhile isspace).length + (field.dropWhile isspace).length =
      field.length := by
    rw [← List.length_append, List.takeWhile_append_dropWhile]
  rw [hbuffer, pastSpace_text] at hstart
  rw [hbuffer, hsplit, hstart, stringAt_text htext]
  obtain ⟨gap, hcut, hgap⟩ := cutSpace_text (front ++ field.takeWhile isspace)
    (field.dropWhile isspace) behind
  refine ⟨front ++ field.takeWhile isspace ++ (trimmed field ++ 0 :: gap), ?_, ?_, ?_⟩
  · rw [hcut]
    simp [trimmed]
  · simp only [List.length_append, List.length_cons]
    rw [trimmed]
    omega
  · rw [List.append_assoc _ _ behind, List.append_assoc (trimmed field), List.cons_append]
    exact stringAt_text htrimmed

theorem splitOn_eq_nil_field {text : CString} :
    text.splitOn ','.toUInt8 = [[]] ↔ text = [] := by
  constructor
  · intro hsplit
    have hback : [','.toUInt8].intercalate (text.splitOn ','.toUInt8) = text :=
      List.intercalate_splitOn _
    rw [hsplit] at hback
    exact hback.symm
  · rintro rfl
    rfl

/-- What becomes of a field, with what is done with the plan that its band is added to. -/
def fieldOutcome (find : CString → Option BandFrequency) (plan : WsprHopPlan) (name : CString)
    (next : WsprHopPlan → Bool × WsprHopPlan) : Bool × WsprHopPlan :=
  match find name with
  | none => (false, .empty)
  | some band =>
      if hroom : plan.bands.length < wsprMaxHopBands then
        if plan.bands.any (·.name == band.canonicalName) then (false, .empty)
        else if 8 ≤ band.canonicalName.length then (false, .empty)
        else next (plan.add band.hopBand hroom)
      else (false, .empty)

/-- What is done behind a field with this pointer to its comma. -/
def behindField (find : CString → Option BandFrequency) (cut : List UInt8) :
    Option Nat → WsprHopPlan → Bool × WsprHopPlan
  | none, plan => (decide (2 ≤ plan.bands.length), plan)
  | some comma, plan =>
      if cut.getD (comma + 1) 0 = 0 then (false, .empty)
      else hopPlanFields find plan cut (comma + 1)

/-- One round of the loop over the buffer. -/
theorem hopPlanFields_round {find : CString → Option BandFrequency} {plan : WsprHopPlan}
    {buffer ended cut : List UInt8} {field start : Nat} {comma : Option Nat}
    (hcomma : strchr buffer field ','.toUInt8 = comma) (hended : endAt buffer comma = ended)
    (hstart : pastSpace ended field = start)
    (hcut : cutSpace ended start (start + (stringAt ended start).length) = cut) :
    hopPlanFields find plan buffer field =
      fieldOutcome find plan (stringAt cut start) (behindField find cut comma) := by
  subst hcomma hended hstart hcut
  rw [hopPlanFields, fieldOutcome]
  split
  · rfl
  split
  · split
    · rfl
    split
    · rfl
    split
    · rename_i hnone
      rw [hnone, behindField]
    · rename_i comma hsome
      rw [hsome, behindField]
  · rfl

/-- One round of the loop over the fields. -/
theorem hopPlanParseLoop_round (find : CString → Option BandFrequency) (plan : WsprHopPlan)
    (field : CString) (rest : List CString) :
    loopOutcome (hopPlanParseLoop find plan (field :: rest)) =
      fieldOutcome find plan (trimmed field) fun plan =>
        if rest = [[]] then (false, .empty) else loopOutcome (hopPlanParseLoop find plan rest) := by
  rw [hopPlanParseLoop, fieldOutcome]
  cases find (trimmed field) with
  | none => rfl
  | some band =>
      dsimp only
      split
      · split
        · rfl
        split
        · rfl
        split
        · rfl
        · rfl
      · rfl

/-- The loop over the buffer is the loop over the fields of the text. -/
theorem hopPlanFields_eq (find : CString → Option BandFrequency) (plan : WsprHopPlan)
    (front : List UInt8) {rest : CString} (hrest : ∀ c ∈ rest, c ≠ 0) :
    hopPlanFields find plan (front ++ (rest ++ [0])) front.length =
      loopOutcome (hopPlanParseLoop find plan (rest.splitOn ','.toUInt8)) := by
  induction hcount : rest.length using Nat.strong_induction_on generalizing plan front rest with
  | _ count ih =>
      have hfound : strchr (front ++ (rest ++ [0])) front.length ','.toUInt8 =
          (rest.idxOf? ','.toUInt8).map (front.length + ·) := strchr_text hrest _
      by_cases hcomma : ','.toUInt8 ∈ rest
      · obtain ⟨field, tail, rfl, hfield⟩ := List.eq_append_cons_of_mem hcomma
        have htail : ∀ c ∈ tail, c ≠ 0 := fun c hc =>
          hrest c (List.mem_append_right _ (List.mem_cons_of_mem _ hc))
        have hended : endAt (front ++ (field ++ ','.toUInt8 :: tail ++ [0]))
            (some (front.length + field.length)) = front ++ (field ++ 0 :: (tail ++ [0])) := by
          simp [endAt, List.set_append_right]
        obtain ⟨before, hcut, hbefore, htrimmed⟩ := cutSpace_field front
          (fun c hc => hrest c (List.mem_append_left _ hc)) (tail ++ [0]) hended rfl
        have hnext : front.length + field.length + 1 = before.length := hbefore.symm
        have hshort : tail.length < count := by
          rw [← hcount, List.length_append, List.length_cons]
          omega
        rw [idxOf?_behind hfield, Option.map_some] at hfound
        rw [hopPlanFields_round hfound rfl rfl hcut, htrimmed,
          List.splitOn_append_cons_self_of_not_mem hfield, hopPlanParseLoop_round]
        congr 1
        funext plan
        simp only [behindField, hnext]
        have hlast : (before ++ (tail ++ [0])).getD before.length 0 = 0 ↔
            tail.splitOn ','.toUInt8 = [[]] := by
          rw [splitOn_eq_nil_field, List.getD_append_right _ _ _ _ (Nat.le_refl _), Nat.sub_self]
          cases tail with
          | nil => simp
          | cons c tail =>
              have hc := htail c List.mem_cons_self
              simp [hc]
        rw [ih tail.length hshort plan before htail rfl]
        exact if_congr hlast rfl rfl
      · rw [List.idxOf?_eq_none_iff.mpr hcomma, Option.map_none] at hfound
        obtain ⟨before, hcut, -, htrimmed⟩ := cutSpace_field front hrest []
          (Eq.refl (endAt (front ++ (rest ++ [0])) none)) rfl
        rw [hopPlanFields_round hfound rfl rfl hcut, htrimmed, List.splitOn_eq_singleton hcomma,
          hopPlanParseLoop_round]
        congr 1

/-- A field that is an alias of this entry, apart from case and white space around it. -/
def FieldNames (table : List BandFrequency) (field : CString) (entry : BandFrequency) : Prop :=
  entry ∈ table ∧ sameCaseless (trimmed field) entry.aliasName = true

/-- A list of at least two different bands that fits into the buffer. -/
structure HopList (table : List BandFrequency) (list : CString) (entries : List BandFrequency) :
    Prop where
  nonempty : list ≠ []
  short : list.length < 256
  fields : List.Forall₂ (FieldNames table) (list.splitOn ','.toUInt8) entries
  several : 2 ≤ entries.length
  distinct : (entries.map (·.canonicalName)).Nodup

/-- What both tables have: no two aliases are the same word, no alias is empty, each name fits
into its array and all bands into a plan. -/
structure TableSound (table : List BandFrequency) : Prop where
  aliases : (table.map fun entry => entry.aliasName.map tolower).Nodup
  words : ∀ entry ∈ table, entry.aliasName ≠ []
  names : ∀ entry ∈ table, entry.canonicalName.length < 8
  bands : (table.map (·.canonicalName)).dedup.length < wsprMaxHopBands

theorem bandTable_sound (ft8 : Bool) : TableSound (bandTable ft8) := by
  cases ft8
  · exact ⟨by decide, by decide, by decide, by decide⟩
  · exact ⟨by decide, by decide, by decide, by decide⟩

section Grammar

variable {table : List BandFrequency} {plan parsed : WsprHopPlan}

/-- The lookup of an alias finds an entry exactly when the entry is in the table and has this
alias, upper and lower case apart. No two entries of the table share an alias, so the first one
found is the only one. -/
theorem findInTable_some_iff (htable : TableSound table) {name : CString} {entry : BandFrequency} :
    findInTable table name = some entry ↔
      entry ∈ table ∧ sameCaseless name entry.aliasName = true := by
  constructor
  · intro hfind
    exact ⟨List.mem_of_find?_eq_some hfind,
      List.find?_some (p := fun band : BandFrequency => sameCaseless name band.aliasName) hfind⟩
  · rintro ⟨hentry, hsame⟩
    obtain ⟨other, hother⟩ : ∃ other, findInTable table name = some other := by
      rw [← Option.isSome_iff_exists, findInTable, List.find?_isSome]
      exact ⟨entry, hentry, hsame⟩
    have hsame' : sameCaseless name other.aliasName = true :=
      List.find?_some (p := fun band : BandFrequency => sameCaseless name band.aliasName) hother
    have halias : other.aliasName.map tolower = entry.aliasName.map tolower :=
      (beq_iff_eq.mp hsame').symm.trans (beq_iff_eq.mp hsame)
    rw [hother, List.inj_on_of_nodup_map htable.aliases (List.mem_of_find?_eq_some hother) hentry
      halias]

/-- A plan of different bands of the table is never full. -/
theorem PlanBuilt.room (htable : TableSound table) (hplan : PlanBuilt table plan) :
    plan.bands.length < wsprMaxHopBands := by
  have hsubset : plan.bands.map (·.name) ⊆ (table.map (·.canonicalName)).dedup := by
    intro name hname
    obtain ⟨band, hband, rfl⟩ := List.mem_map.mp hname
    obtain ⟨entry, hentry, rfl⟩ := hplan.listed band hband
    exact List.mem_dedup.mpr (List.mem_map_of_mem hentry)
  have hlength := (hplan.distinct.subperm hsubset).length_le
  rw [List.length_map] at hlength
  exact Nat.lt_of_le_of_lt hlength htable.bands

theorem fieldNames_nil (htable : TableSound table) (entry : BandFrequency) :
    ¬ FieldNames table [] entry := by
  rintro ⟨hentry, hsame⟩
  have hempty : [] = entry.aliasName.map tolower := beq_iff_eq.mp hsame
  exact htable.words entry hentry (List.map_eq_nil_iff.mp hempty.symm)

/-- The loop goes through when the fields name bands that are all different, and adds them. -/
theorem hopPlanParseLoop_some_iff (htable : TableSound table) (hplan : PlanBuilt table plan)
    {fields : List CString} :
    hopPlanParseLoop (findInTable table) plan fields = some parsed ↔
      ∃ entries, List.Forall₂ (FieldNames table) fields entries ∧
        parsed.bands = plan.bands ++ entries.map (·.hopBand) ∧
        (parsed.bands.map (·.name)).Nodup := by
  induction fields generalizing plan with
  | nil =>
      constructor
      · intro hloop
        obtain rfl := Option.some.inj hloop
        exact ⟨[], List.Forall₂.nil, (List.append_nil _).symm, hplan.distinct⟩
      · rintro ⟨entries, hentries, hbands, -⟩
        obtain rfl := List.forall₂_nil_left_iff.mp hentries
        rw [List.map_nil, List.append_nil] at hbands
        exact congrArg some (WsprHopPlan.ext_bands hbands.symm)
  | cons field rest ih =>
      constructor
      · intro hloop
        rw [hopPlanParseLoop] at hloop
        split at hloop
        · cases hloop
        rename_i entry hfound
        obtain hnames := (findInTable_some_iff htable).mp hfound
        split at hloop
        · rename_i hroom
          split at hloop
          · cases hloop
          rename_i hnew
          split at hloop
          · cases hloop
          split at hloop
          · cases hloop
          obtain ⟨entries, hentries, hbands, hdistinct⟩ :=
            (ih (hplan.add hnames.1 (Bool.eq_false_iff.mpr hnew) hroom)).mp hloop
          refine ⟨entry :: entries, List.Forall₂.cons hnames hentries, ?_, hdistinct⟩
          rw [hbands, WsprHopPlan.bands_add, List.append_assoc, List.map_cons,
            List.singleton_append]
        · cases hloop
      · rintro ⟨entries, hentries, hbands, hdistinct⟩
        obtain ⟨entry, entries, hnames, hrest, rfl⟩ := List.forall₂_cons_left_iff.mp hentries
        have hroom := hplan.room htable
        have hnew : plan.bands.any (·.name == entry.canonicalName) = false := by
          rw [List.any_eq_false]
          intro band hband hsame
          have hnames' := hdistinct
          rw [hbands, List.map_append, List.map_map, List.map_cons] at hnames'
          apply List.disjoint_of_nodup_append hnames' (List.mem_map_of_mem hband)
          rw [beq_iff_eq.mp hsame]
          exact List.mem_cons_self
        have hnonempty : rest ≠ [[]] := by
          rintro rfl
          obtain ⟨other, -, hother, -⟩ := List.forall₂_cons_left_iff.mp hrest
          exact fieldNames_nil htable other hother
        have hshort : ¬ 8 ≤ entry.canonicalName.length :=
          Nat.not_le.mpr (htable.names entry hnames.1)
        rw [hopPlanParseLoop, (findInTable_some_iff htable).mpr hnames]
        dsimp only
        rw [dif_pos hroom, hnew, if_neg Bool.false_ne_true, if_neg hshort, if_neg hnonempty,
          ih (hplan.add hnames.1 hnew hroom)]
        refine ⟨entries, hrest, ?_, hdistinct⟩
        rw [hbands, WsprHopPlan.bands_add, List.append_assoc, List.map_cons,
          List.singleton_append]

end Grammar

theorem findInTable_bandTable (ft8 : Bool) :
    (if ft8 then findFt8Band else findBand) = findInTable (bandTable ft8) := by
  cases ft8
  · rfl
  · rfl

/-- What `hop_plan_parse` does with a text that fits into its buffer. -/
theorem hopPlanParseInto_text (plan : WsprHopPlan) {list : CString} (hlist : ∀ c ∈ list, c ≠ 0)
    (hnonempty : list ≠ []) (hshort : list.length < 256) (ft8 : Bool) :
    hopPlanParseInto plan list ft8 =
      loopOutcome (hopPlanParseLoop (findInTable (bandTable ft8)) .empty
        (list.splitOn ','.toUInt8)) := by
  have hfits : ¬ (list = [] ∨ 256 ≤ list.length) := by
    rintro (hempty | hlong)
    · exact hnonempty hempty
    · exact Nat.not_le.mpr hshort hlong
  rw [hopPlanParseInto, if_neg hfits, findInTable_bandTable]
  exact hopPlanFields_eq _ .empty [] hlist

/-- The plan of `hopPlanParse` is the one that is left when the parser returns true. -/
theorem hopPlanParse_eq (plan : WsprHopPlan) {list : CString} (hlist : ∀ c ∈ list, c ≠ 0)
    (ft8 : Bool) :
    hopPlanParse (findInTable (bandTable ft8)) list =
      if (hopPlanParseInto plan list ft8).1 then some (hopPlanParseInto plan list ft8).2
      else none := by
  rw [hopPlanParse]
  by_cases hfits : list = [] ∨ 256 ≤ list.length
  · rw [if_pos hfits, hopPlanParseInto, if_pos hfits]
    rfl
  · have hnonempty : list ≠ [] := fun hempty => hfits (Or.inl hempty)
    have hshort : list.length < 256 := Nat.not_le.mp fun hlong => hfits (Or.inr hlong)
    rw [if_neg hfits, hopPlanParseInto_text plan hlist hnonempty hshort]
    cases hopPlanParseLoop (findInTable (bandTable ft8)) .empty (list.splitOn ','.toUInt8) with
    | none => rfl
    | some parsed => simp only [loopOutcome, decide_eq_true_eq]

theorem HopList.entries_listed {table : List BandFrequency} {list : CString}
    {entries : List BandFrequency} (h : HopList table list entries) :
    ∀ entry ∈ entries, entry ∈ table :=
  ((List.forall₂_and_left (p := (· ∈ table)) _ _).mp h.fields.flip).1

/-- A list of aliases of different bands, with white space around them as the grammar allows,
is accepted, and the plan has their bands in the order of the list. -/
theorem HopList.parsed {plan : WsprHopPlan} {list : CString} (hlist : ∀ c ∈ list, c ≠ 0)
    {ft8 : Bool} {entries : List BandFrequency} (h : HopList (bandTable ft8) list entries) :
    (hopPlanParseInto plan list ft8).1 = true ∧
      (hopPlanParseInto plan list ft8).2.bands = entries.map (·.hopBand) := by
  have htable := bandTable_sound ft8
  have hbuilt := planBuilt_empty (bandTable ft8)
  have hnames : ((entries.map (·.hopBand)).map (·.name)).Nodup := by
    rw [List.map_map]
    exact h.distinct
  have hsub : entries.map (·.canonicalName) ⊆
      ((bandTable ft8).map (·.canonicalName)).dedup := by
    intro name hname
    obtain ⟨entry, hentry, rfl⟩ := List.mem_map.mp hname
    exact List.mem_dedup.mpr (List.mem_map_of_mem (h.entries_listed entry hentry))
  have hfits : (entries.map (·.hopBand)).length ≤ wsprMaxHopBands := by
    have hlength := (h.distinct.subperm hsub).length_le
    rw [List.length_map] at hlength ⊢
    exact hlength.trans htable.bands.le
  have hloop : hopPlanParseLoop (findInTable (bandTable ft8)) .empty (list.splitOn ','.toUInt8) =
      some ⟨entries.map (·.hopBand), hfits⟩ :=
    (hopPlanParseLoop_some_iff htable hbuilt).mpr ⟨entries, h.fields, rfl, hnames⟩
  rw [hopPlanParseInto_text plan hlist h.nonempty h.short, hloop, loopOutcome]
  refine ⟨?_, rfl⟩
  rw [decide_eq_true_eq, List.length_map]
  exact h.several

/-- `hop_plan_parse` accepts the lists of at least two different bands, and leaves the entries
of their fields in order. The list is a text that says which fields it has; neither the old
plan nor the buffer plays a part in it. -/
theorem hopPlanParseInto_accepts (plan : WsprHopPlan) {list : CString}
    (hlist : ∀ c ∈ list, c ≠ 0) (ft8 : Bool) :
    ((hopPlanParseInto plan list ft8).1 = true ↔
        ∃ entries, HopList (bandTable ft8) list entries) ∧
      ∀ entries, HopList (bandTable ft8) list entries →
        (hopPlanParseInto plan list ft8).2.bands = entries.map (·.hopBand) := by
  refine ⟨⟨?_, fun ⟨_, hentries⟩ => (hentries.parsed hlist).1⟩,
    fun _ hentries => (hentries.parsed hlist).2⟩
  intro haccept
  by_cases hfits : list = [] ∨ 256 ≤ list.length
  · rw [hopPlanParseInto, if_pos hfits] at haccept
    cases haccept
  · have hnonempty : list ≠ [] := fun hempty => hfits (Or.inl hempty)
    have hshort : list.length < 256 := Nat.not_le.mp fun hlong => hfits (Or.inr hlong)
    rw [hopPlanParseInto_text plan hlist hnonempty hshort] at haccept
    cases hloop : hopPlanParseLoop (findInTable (bandTable ft8)) .empty
        (list.splitOn ','.toUInt8) with
    | none =>
        rw [hloop] at haccept
        cases haccept
    | some parsed =>
        rw [hloop, loopOutcome, decide_eq_true_eq] at haccept
        obtain ⟨entries, hfields, hbands, hdistinct⟩ := (hopPlanParseLoop_some_iff
          (bandTable_sound ft8) (planBuilt_empty (bandTable ft8))).mp hloop
        refine ⟨entries, hnonempty, hshort, hfields, ?_, ?_⟩
        · rw [hbands] at haccept
          simpa [WsprHopPlan.empty] using haccept
        · rw [hbands] at hdistinct
          simpa [WsprHopPlan.empty, Function.comp_def, BandFrequency.hopBand] using hdistinct

/-- A list with blanks around the aliases of three bands is accepted. -/
theorem aliases_accepted :
    (hopPlanParseInto .empty (bytes " LF,20m ,1m25") false).1 = true ∧
      ∃ entries, HopList (bandTable false) (bytes " LF,20m ,1m25") entries ∧
        (hopPlanParseInto .empty (bytes " LF,20m ,1m25") false).2.bands =
          entries.map (·.hopBand) := by
  have hlist : ∀ c ∈ bytes " LF,20m ,1m25", c ≠ 0 := List.forall_mem_ne'.mpr (by decide)
  obtain ⟨hiff, hbands⟩ := hopPlanParseInto_accepts .empty hlist false
  have haccept : (hopPlanParseInto .empty (bytes " LF,20m ,1m25") false).1 = true := by
    decide +kernel
  obtain ⟨entries, hentries⟩ := hiff.mp haccept
  exact ⟨haccept, entries, hentries, hbands entries hentries⟩

end AirspyhfWsprd.Bands
