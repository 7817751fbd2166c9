/-
# ScanChain.Proofs.Overrides — which widths a description may give

A description names a fault model and gives widths under names. `fieldRules?` is the table of the
fault models: the fields that each declares, in order, with the width that a field has where none is
given. Describing an injector starts from those widths and takes the given ones in the order of their
names; taking one changes the width of the field of that name and nothing else (`override?_eq_some`),
or refuses the name, which depends on the fault model alone (`exists_override?_iff`). So the injector
has the given widths where there are any and those of the table elsewhere, and a refusal names the
first name that has to be refused.

Every field of the table can be given a width, except the one field of a pass-through.
-/
import Mathlib.Data.List.Nodup
import ScanChain.Proofs.Outcome
import ScanChain.Segment.Placement
import ScanChain.Text.Utf8

namespace ScanChain

/-! ## The fields of the fault models -/

/-- A field of a fault model: its name, what fills it, and its width where none is given, which may be
the width of the register. -/
structure FieldRule where
  name : String
  binding : Binding
  width : UInt32 → UInt32

/-- The fields that a fault model declares, the most significant first. -/
def fieldRules? : String → Option (List FieldRule)
  | "pass-through" => some [⟨"data", .none, id⟩]
  | "lfsr" => some [⟨"enable", .enableOnProbability, fun _ => 1⟩, ⟨"seed", .seed, fun _ => 32⟩,
      ⟨"mask", .randomMask, id⟩, ⟨"difficulty", .difficulty, fun _ => 0⟩]
  | "stuck-at" => some [⟨"mask", .mask, id⟩, ⟨"value", .stuckAtValue, id⟩]
  | "cycle" => some [⟨"enable", .enableOnCycle, fun _ => 1⟩,
      ⟨"cycle_count", .cycle, fun _ => 32⟩, ⟨"inject_at", .cycleInjectAt, fun _ => 32⟩]
  | _ => none

/-- The field with the width that is given for it, or else with that of the rule. -/
def FieldRule.field (rule : FieldRule) (widths : NameTable UInt32) (register : UInt32) : Field :=
  ⟨rule.name, (widths.find? rule.name).getD (rule.width register), rule.binding⟩

/-- The fault model declares a field of the name. -/
def Declares (tag name : String) : Prop :=
  ∃ rules, fieldRules? tag = some rules ∧ name ∈ rules.map (·.name)

/-- A description of the fault model may give a width under the name. -/
def Accepts (tag name : String) : Prop :=
  name = "width" ∨ Declares tag name ∧ tag ≠ "pass-through"

namespace Injector

variable {i j : Injector} {segment tag name : String} {value register : UInt32}

/-- A fault model starts with the widths of its rules. -/
theorem ofTag?_eq_some (h : ofTag? tag register = some i) :
    i.tag = tag ∧ i.width = register ∧ ∃ rules, fieldRules? tag = some rules ∧
      i.declared = rules.map fun rule => ⟨rule.name, rule.width register, rule.binding⟩ := by
  unfold ofTag? at h
  split at h
  · cases h
    exact ⟨rfl, rfl, _, rfl, rfl⟩
  · cases h
    exact ⟨rfl, rfl, _, rfl, rfl⟩
  · cases h
    exact ⟨rfl, rfl, _, rfl, rfl⟩
  · cases h
    exact ⟨rfl, rfl, _, rfl, rfl⟩
  · cases h

theorem exists_ofTag?_iff :
    (∃ i, ofTag? tag register = some i) ↔ ∃ rules, fieldRules? tag = some rules := by
  constructor
  · rintro ⟨i, h⟩
    obtain ⟨-, -, rules, hrules, -⟩ := ofTag?_eq_some h
    exact ⟨rules, hrules⟩
  · rintro ⟨rules, h⟩
    unfold fieldRules? at h
    split at h
    · exact ⟨_, rfl⟩
    · exact ⟨_, rfl⟩
    · exact ⟨_, rfl⟩
    · exact ⟨_, rfl⟩
    · cases h

/-! ## One width -/

/-- The field with the width that an entry gives under its name. -/
def setBy (entry : String × UInt32) (f : Field) : Field :=
  if f.name = entry.1 then { f with width := entry.2 } else f

/-- Overriding a width changes the field of that name only. -/
theorem override?_eq_some (h : i.override? name value = some j) :
    j.tag = i.tag ∧ j.width = i.width ∧ j.declared = i.declared.map (setBy (name, value)) := by
  unfold override? at h
  split at h
  case h_10 => cases h
  all_goals
    cases h
    exact ⟨rfl, rfl, rfl⟩

/-- Which names can be overridden is a matter of the fault model. -/
theorem exists_override?_iff :
    (∃ j, i.override? name value = some j) ↔ Declares i.tag name ∧ i.tag ≠ "pass-through" := by
  constructor
  · rintro ⟨j, h⟩
    unfold override? at h
    split at h
    case h_10 => cases h
    all_goals exact ⟨⟨_, rfl, by simp⟩, by simp [tag]⟩
  · rintro ⟨⟨rules, hrules, hname⟩, htag⟩
    cases i with
    | passThrough => exact absurd rfl htag
    | lfsr =>
      cases hrules
      simp only [List.map_cons, List.map_nil, List.mem_cons, List.not_mem_nil, or_false] at hname
      rcases hname with rfl | rfl | rfl | rfl <;> exact ⟨_, rfl⟩
    | stuckAt =>
      cases hrules
      simp only [List.map_cons, List.map_nil, List.mem_cons, List.not_mem_nil, or_false] at hname
      rcases hname with rfl | rfl <;> exact ⟨_, rfl⟩
    | cycle =>
      cases hrules
      simp only [List.map_cons, List.map_nil, List.mem_cons, List.not_mem_nil, or_false] at hname
      rcases hname with rfl | rfl | rfl <;> exact ⟨_, rfl⟩

/-! ## All widths -/

/-- Takes one entry of a description; that of the register has been taken before. -/
def setWidth (segment tag : String) (i : Injector) (entry : String × UInt32) :
    Except ChainError Injector :=
  if entry.1 = "width" then .ok i
  else match i.override? entry.1 entry.2 with
    | some j => .ok j
    | none => .error (.unknownField segment tag entry.1)

theorem ofWidths_eq (segment tag : String) (widths : NameTable UInt32) :
    ofWidths segment tag widths =
      match widths.find? "width" with
      | none => .error (.missingWidth segment)
      | some register =>
        match ofTag? tag register with
        | none => .error (.unknownInjectorKind segment tag)
        | some start => widths.entries.foldlM (setWidth segment tag) start := rfl

section Entries

variable {entry : String × UInt32} {entries : List (String × UInt32)} {e : ChainError}

/-- No fault model declares a field with the name that stands for the register. -/
theorem name_ne_width {f : Field} (hf : f ∈ i.declared) : f.name ≠ "width" := by
  have hnames : "width" ∉ i.declared.map (·.name) := by
    cases i <;> simp [declared]
  intro h
  exact hnames (h ▸ List.mem_map_of_mem hf)

theorem setWidth_eq_ok (h : setWidth segment tag i entry = .ok j) :
    Accepts i.tag entry.1 ∧ j.tag = i.tag ∧ j.width = i.width ∧
      j.declared = i.declared.map (setBy entry) := by
  unfold setWidth at h
  split at h
  · rename_i hregister
    cases h
    have hkept : ∀ f ∈ i.declared, setBy entry f = id f := by
      intro f hf
      exact if_neg fun hname => name_ne_width hf (hname.trans hregister)
    exact ⟨.inl hregister, rfl, rfl, by rw [List.map_congr_left hkept, List.map_id]⟩
  · split at h
    · rename_i hset
      cases h
      exact ⟨.inr (exists_override?_iff.mp ⟨_, hset⟩), override?_eq_some hset⟩
    · cases h

theorem setWidth_eq_error (h : setWidth segment tag i entry = .error e) :
    ¬ Accepts i.tag entry.1 ∧ e = .unknownField segment tag entry.1 := by
  unfold setWidth at h
  split at h
  · cases h
  · rename_i hregister
    split at h
    · cases h
    · rename_i hset
      cases h
      refine ⟨?_, rfl⟩
      rintro (hname | hdeclared)
      · exact hregister hname
      · obtain ⟨j, hj⟩ := exists_override?_iff.mpr hdeclared
        rw [hset] at hj
        cases hj

/-- Entries that are all taken are all acceptable, and each changes the fields of its name. -/
theorem setWidths_eq_ok (h : entries.foldlM (setWidth segment tag) i = .ok j) :
    (∀ entry ∈ entries, Accepts i.tag entry.1) ∧ j.tag = i.tag ∧ j.width = i.width ∧
      j.declared = i.declared.map fun f => entries.foldl (fun f entry => setBy entry f) f := by
  induction entries generalizing i with
  | nil =>
    cases h
    exact ⟨by simp, rfl, rfl, (List.map_id _).symm⟩
  | cons entry entries ih =>
    rw [List.foldlM_cons] at h
    obtain ⟨middle, hfirst, hrest⟩ := bind_eq_ok_iff.mp h
    obtain ⟨haccepts, htag, hwidth, hdeclared⟩ := setWidth_eq_ok hfirst
    obtain ⟨haccepted, htag', hwidth', hdeclared'⟩ := ih hrest
    rw [htag] at haccepted htag'
    refine ⟨List.forall_mem_cons.mpr ⟨haccepts, haccepted⟩, htag', hwidth'.trans hwidth, ?_⟩
    rw [hdeclared', hdeclared, List.map_map]
    rfl

/-- Entries that are not all taken are refused with the first that is not acceptable. -/
theorem setWidths_eq_error (h : entries.foldlM (setWidth segment tag) i = .error e) :
    ∃ before entry after, entries = before ++ entry :: after ∧
      (∀ c ∈ before, Accepts i.tag c.1) ∧ ¬ Accepts i.tag entry.1 ∧
        e = .unknownField segment tag entry.1 := by
  induction entries generalizing i with
  | nil => cases h
  | cons first entries ih =>
    rw [List.foldlM_cons] at h
    rcases bind_eq_error_iff.mp h with hfirst | ⟨middle, hfirst, hrest⟩
    · obtain ⟨hrefused, he⟩ := setWidth_eq_error hfirst
      exact ⟨[], first, entries, rfl, by simp, hrefused, he⟩
    · obtain ⟨haccepts, htag, -⟩ := setWidth_eq_ok hfirst
      obtain ⟨before, entry, after, rfl, hbefore, hrefused, he⟩ := ih hrest
      rw [htag] at hbefore hrefused
      exact ⟨first :: before, entry, after, rfl, List.forall_mem_cons.mpr ⟨haccepts, hbefore⟩,
        hrefused, he⟩

/-- Of entries with different names a field is changed by the one with its name. -/
theorem foldl_setBy (hnodup : (entries.map (·.1)).Nodup) (f : Field) :
    entries.foldl (fun f entry => setBy entry f) f =
      { f with width := ((entries.find? (·.1 = f.name)).map (·.2)).getD f.width } := by
  induction entries generalizing f with
  | nil => rfl
  | cons entry entries ih =>
    rw [List.map_cons, List.nodup_cons] at hnodup
    obtain ⟨hnew, hnodup⟩ := hnodup
    rw [List.foldl_cons, ih hnodup, List.find?_cons]
    by_cases hname : f.name = entry.1
    · -- The name is not met again, so the width stays.
      have hnone : entries.find? (·.1 = entry.1) = none := by
        rw [List.find?_eq_none]
        intro other hother
        have hne : other.1 ≠ entry.1 := fun heq => hnew (heq ▸ List.mem_map_of_mem hother)
        simpa using hne
      simp [setBy, hname, hnone]
    · have hne : decide (entry.1 = f.name) = false := by simpa using Ne.symm hname
      simp [setBy, hname, hne]

end Entries

/-! ## Descriptions -/

/-- Why a description is refused: it gives no width for the register, or names no fault model, or else
gives a width that the fault model does not accept, of which the name with the least bytes counts. -/
inductive WidthsRefused (segment tag : String) (widths : NameTable UInt32) : ChainError → Prop
  | missingWidth : widths.find? "width" = none → WidthsRefused segment tag widths (.missingWidth segment)
  | unknownKind {register : UInt32} : widths.find? "width" = some register → fieldRules? tag = none →
      WidthsRefused segment tag widths (.unknownInjectorKind segment tag)
  | unknownField {register : UInt32} {rules : List FieldRule} {name : String} :
      widths.find? "width" = some register → fieldRules? tag = some rules → name ∈ widths.names →
      ¬ Accepts tag name →
      (∀ other ∈ widths.names, ¬ Accepts tag other → other ≠ name →
        Text.utf8 name < Text.utf8 other) →
      WidthsRefused segment tag widths (.unknownField segment tag name)

section Descriptions

variable {widths : NameTable UInt32} {e : ChainError}

theorem nodup_names (widths : NameTable UInt32) : (widths.entries.map (·.1)).Nodup := by
  rw [List.Nodup, List.pairwise_map]
  exact widths.ascending.imp String.ne_of_lt

/-- A description that is taken gives the width of the register and nothing that its fault model does
not accept; the injector has the given widths, and those of the rules elsewhere. -/
theorem ofWidths_eq_ok (h : ofWidths segment tag widths = .ok i) :
    widths.find? "width" = some i.width ∧ i.tag = tag ∧ (∀ name ∈ widths.names, Accepts tag name) ∧
      ∃ rules, fieldRules? tag = some rules ∧
        i.declared = rules.map (·.field widths i.width) := by
  rw [ofWidths_eq] at h
  split at h
  · cases h
  rename_i register hregister
  split at h
  · cases h
  rename_i start hstart
  obtain ⟨rfl, rfl, rules, hrules, hdeclared⟩ := ofTag?_eq_some hstart
  obtain ⟨haccepted, htag, hwidth, hset⟩ := setWidths_eq_ok h
  refine ⟨by rw [hwidth, hregister], htag, ?_, rules, hrules, ?_⟩
  · intro name hname
    obtain ⟨entry, hentry, rfl⟩ := List.mem_map.mp hname
    exact haccepted entry hentry
  · rw [hset, hdeclared, List.map_map, hwidth]
    apply List.map_congr_left
    intro rule _
    exact foldl_setBy (nodup_names widths) _

theorem widthsRefused_of_ofWidths (h : ofWidths segment tag widths = .error e) :
    WidthsRefused segment tag widths e := by
  rw [ofWidths_eq] at h
  split at h
  · rename_i hregister
    cases h
    exact .missingWidth hregister
  rename_i register hregister
  split at h
  · rename_i hstart
    cases h
    refine .unknownKind hregister (Option.eq_none_iff_forall_ne_some.mpr ?_)
    intro rules hrules
    obtain ⟨i, hi⟩ : ∃ i, ofTag? tag register = some i := exists_ofTag?_iff.mpr ⟨rules, hrules⟩
    rw [hstart] at hi
    cases hi
  rename_i start hstart
  obtain ⟨rfl, -, rules, hrules, -⟩ := ofTag?_eq_some hstart
  obtain ⟨before, entry, after, hsplit, hbefore, hrefused, rfl⟩ := setWidths_eq_error h
  refine .unknownField hregister hrules ?_ hrefused ?_
  · rw [NameTable.names, hsplit]
    simp
  · -- The entries before are acceptable, and those behind have greater names.
    intro other hother hotherRefused hne
    obtain ⟨c, hc, rfl⟩ := List.mem_map.mp hother
    have hascending := widths.ascending
    rw [hsplit] at hc hascending
    rcases List.mem_append.mp hc with hc | hc
    · exact absurd (hbefore c hc) hotherRefused
    · rcases List.mem_cons.mp hc with rfl | hc
      · exact absurd rfl hne
      · apply Text.utf8_lt
        exact List.rel_of_pairwise_cons (List.pairwise_append.mp hascending).2.1 hc

theorem exists_ofWidths_iff :
    (∃ i, ofWidths segment tag widths = .ok i) ↔
      (∃ register, widths.find? "width" = some register) ∧
        (∃ rules, fieldRules? tag = some rules) ∧ ∀ name ∈ widths.names, Accepts tag name := by
  constructor
  · rintro ⟨i, h⟩
    obtain ⟨hregister, -, haccepted, rules, hrules, -⟩ := ofWidths_eq_ok h
    exact ⟨⟨_, hregister⟩, ⟨rules, hrules⟩, haccepted⟩
  · rintro ⟨⟨register, hregister⟩, ⟨rules, hrules⟩, haccepted⟩
    rw [exists_eq_ok_iff]
    intro e h
    cases widthsRefused_of_ofWidths h with
    | missingWidth hnone =>
      rw [hregister] at hnone
      cases hnone
    | unknownKind _ hnone =>
      rw [hrules] at hnone
      cases hnone
    | unknownField _ _ hname hrefused _ => exact hrefused (haccepted _ hname)

end Descriptions

/-- A description is taken exactly if it gives the width of the register, names a fault model and gives
no width but those of the fields that the fault model declares; a pass-through takes none for its
field. The fields are then those of the rules, with the given widths where there are any, and
without those of width zero. Any other description is refused for the first of these reasons. -/
theorem takes_declared_widths (segment tag : String) (widths : NameTable UInt32) :
    ((∃ i, ofWidths segment tag widths = .ok i) ↔
      (∃ register, widths.find? "width" = some register) ∧
        (∃ rules, fieldRules? tag = some rules) ∧
        ∀ name ∈ widths.names, name = "width" ∨ Declares tag name ∧ tag ≠ "pass-through") ∧
    (∀ i, ofWidths segment tag widths = .ok i →
      widths.find? "width" = some i.width ∧ i.tag = tag ∧
        ∃ rules, fieldRules? tag = some rules ∧
          i.fields = (rules.map (·.field widths i.width)).filter (·.width ≠ 0)) ∧
    ∀ e, ofWidths segment tag widths = .error e → WidthsRefused segment tag widths e := by
  refine ⟨exists_ofWidths_iff, ?_, fun _ h => widthsRefused_of_ofWidths h⟩
  intro i h
  obtain ⟨hregister, htag, -, rules, hrules, hdeclared⟩ := ofWidths_eq_ok h
  refine ⟨hregister, htag, rules, hrules, ?_⟩
  rw [fields, hdeclared]

/-- The field of a pass-through is declared, and a width that is given for it is refused, so not every
declared field can be given a width. -/
theorem passThrough_refuses_width_of_its_field :
    Declares "pass-through" "data" ∧
      ofWidths "r" "pass-through" ⟨[("data", 4), ("width", 8)], by decide⟩ =
        .error (.unknownField "r" "pass-through" "data") ∧
      ¬ ∀ (segment tag : String) (widths : NameTable UInt32),
        (∃ i, ofWidths segment tag widths = .ok i) ↔
          (∃ register, widths.find? "width" = some register) ∧
            (∃ rules, fieldRules? tag = some rules) ∧
            ∀ name ∈ widths.names, name = "width" ∨ Declares tag name := by
  have hdeclares : Declares "pass-through" "data" := ⟨_, rfl, by simp⟩
  have hrefused : ofWidths "r" "pass-through" ⟨[("data", 4), ("width", 8)], by decide⟩ =
      .error (.unknownField "r" "pass-through" "data") := by decide +kernel
  refine ⟨hdeclares, hrefused, ?_⟩
  intro hall
  have htaken := (hall "r" "pass-through" ⟨[("data", 4), ("width", 8)], by decide⟩).mpr
    ⟨⟨8, by decide +kernel⟩, ⟨_, rfl⟩, by simp [NameTable.names, hdeclares]⟩
  obtain ⟨i, hi⟩ := htaken
  rw [hrefused] at hi
  cases hi

end Injector
end ScanChain
