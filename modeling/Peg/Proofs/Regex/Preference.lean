import Mathlib.Data.List.TakeWhile
import Peg.Proofs.Regex.Frontier

/-!
# The preferred match

A search follows all ways side by side. A way that comes to an address where a
preferred one has been is given up, and no end is lost by that: what the way could
do from there, the preferred one can do as well. So the search answers with the end
of the first way among those that come to no address twice at one place.

## Main definitions

* `Candidate`: an accepting run that goes on from one of some arrivals.
* `Onward`: what an arrival can do where it waits.
* `Answers`: a result is the end of the first of some ways.

## Main results

* `Run.exists_direct`: where there is a run, there is one that goes nowhere twice.
* `Program.matchEnd?_answers`: a search finds the end of the first run that accepts.
-/

namespace Peg.Regex

variable {code : Array Inst} {p q r : Place} {a b c : Nat} {turns rest : List Turn}

/-! ### Runs that go nowhere twice -/

/-- A run comes to the place of one of its turns, and goes on from there. -/
theorem Run.split {first : List Turn} {turn : Turn}
    (h : Run code a c p (first ++ turn :: rest) q) :
    Run code a turn.part p first turn.place ∧ Run code turn.part c turn.place (turn :: rest) q := by
  induction first generalizing a p with
  | nil =>
    cases h with
    | step step others => exact ⟨.done, .step step others⟩
  | cons earlier first ih =>
    cases h with
    | step step others =>
      obtain ⟨before, onward⟩ := ih others
      exact ⟨.step step before, onward⟩

theorem Run.exists_of_mem {turn : Turn} (h : Run code a c p turns q) (member : turn ∈ turns) :
    ∃ first rest, turns = first ++ turn :: rest ∧
      Run code turn.part c turn.place (turn :: rest) q := by
  obtain ⟨first, rest, rfl⟩ := List.append_of_mem member
  exact ⟨first, rest, rfl, h.split.2⟩

/-- What a run does between two visits of an address at one place can be left out. -/
theorem Run.exists_direct (h : Run code a c p turns q) :
    ∃ others, Run code a c p others q ∧ Turn.AreDirect others := by
  induction h with
  | done => exact ⟨[], .done, .nil⟩
  | @step a b c p q r choice turns step _ ih =>
    obtain ⟨others, run, direct⟩ := ih
    by_cases again : ∃ turn ∈ others, turn.part = a ∧ turn.place = p
    · -- The rest comes back to where this run begins: it can begin there at once.
      obtain ⟨⟨part, place, choice⟩, member, rfl, rfl⟩ := again
      obtain ⟨first, rest, rfl, onward⟩ := run.exists_of_mem member
      exact ⟨_, onward, (List.pairwise_append.1 direct).2.1⟩
    · refine ⟨⟨a, p, choice⟩ :: others, .step step run, List.pairwise_cons.2 ⟨?_, direct⟩⟩
      intro turn member same here
      exact again ⟨turn, member, same.symm, here.symm⟩

theorem Step.exists_reads {choice : Nat} (h : Step code a p choice b q) :
    ∃ found, p.Reads found q := by
  cases h with
  | go => exact ⟨[], Place.reads_nil_iff.2 rfl⟩
  | read _ _ reads => exact ⟨_, reads⟩

/-- A run never goes back in the text. -/
theorem Run.exists_reads {turn : Turn} (h : Run code a c p turns q) (member : turn ∈ turns) :
    ∃ found, p.Reads found turn.place := by
  induction h with
  | done => cases member
  | @step a b c p q r choice turns step others ih =>
    rcases List.mem_cons.1 member with rfl | member
    · exact ⟨[], Place.reads_nil_iff.2 rfl⟩
    · obtain ⟨begin, reads⟩ := step.exists_reads
      obtain ⟨found, onward⟩ := ih member
      exact ⟨begin ++ found, reads.trans onward⟩

/-- After a character has been read, no turn is taken where it was read. -/
theorem Run.place_ne {char : Char} (h : Run code a c r turns q) (reads : p.Reads [char] r) :
    ∀ turn ∈ turns, turn.place ≠ p := by
  intro turn member same
  obtain ⟨found, onward⟩ := h.exists_reads member
  have ahead := congrArg List.length (reads.trans onward).2
  rw [same] at ahead
  simp at ahead

/-! ### Walks and treks -/

namespace Walk

theorem place_eq (h : Walk code p a turns c) : ∀ turn ∈ turns, turn.place = p := by
  induction h with
  | here => exact List.forall_mem_nil _
  | go _ _ ih => exact List.forall_mem_cons.2 ⟨rfl, ih⟩

/-- A walk goes on from the addresses where it takes a turn. -/
theorem not_waits (h : Walk code p a turns c) : ∀ turn ∈ turns, ¬ Waits code turn.part := by
  induction h with
  | here => exact List.forall_mem_nil _
  | go next _ ih =>
    refine List.forall_mem_cons.2 ⟨fun waits => ?_, ih⟩
    simp [successors_of_waits waits] at next

theorem run (h : Walk code p a turns c) : Run code a c p turns p := by
  induction h with
  | here => exact .done
  | go next _ ih => exact .step (.go next) ih

/-- A direct walk to an address where ways wait is a trek. -/
theorem trek (h : Walk code p a turns c) (waits : Waits code c) (direct : Turn.AreDirect turns) :
    Trek code p [] a turns c := by
  refine ⟨h, List.nodup_append.2 ⟨?_, List.nodup_singleton c, ?_⟩, fun _ _ => List.not_mem_nil⟩
  · refine List.pairwise_map.2 (direct.imp_of_mem ?_)
    intro turn later member member' apart same
    exact apart same ((h.place_eq turn member).trans (h.place_eq later member').symm)
  · rintro part member _ single rfl
    obtain rfl := List.mem_singleton.1 single
    obtain ⟨turn, taken, rfl⟩ := List.mem_map.1 member
    exact h.not_waits turn taken waits

end Walk

theorem Trek.areDirect (h : Trek code p [] a turns c) : Turn.AreDirect turns := by
  have once := (List.nodup_append.1 h.once).1
  refine (List.pairwise_map.1 once).imp ?_
  intro turn later apart same
  exact absurd same apart

/-! ### Candidates -/

/-- A run to the last address that goes on from one of some arrivals, and goes
nowhere twice. -/
def Candidate (code : Array Inst) (sources : List Arrival) (p : Place) (turns : List Turn)
    (q : Place) : Prop :=
  ∃ source ∈ sources, ∃ rest, turns = source.turns ++ rest ∧
    Run code source.address code.size p rest q ∧ Turn.AreDirect rest

/-- What can be done where a way waits: it accepts, or reads a character and goes on. -/
inductive Onward (code : Array Inst) (p : Place) (arrival : Arrival) : List Turn → Place → Prop
  | accept (ends : arrival.address = code.size) : Onward code p arrival arrival.turns p
  | read {chars : CharSet} {char : Char} {q r : Place} {rest : List Turn}
    (inst : code[arrival.address]? = some (.read chars)) (member : chars.contains char = true)
    (reads : p.Reads [char] r) (others : Run code (arrival.address + 1) code.size r rest q)
    (direct : Turn.AreDirect rest) :
    Onward code p arrival (arrival.turns ++ ⟨arrival.address, p, 0⟩ :: rest) q

namespace Onward

variable {arrival : Arrival}

/-- What can be done at an address does not depend on the way that led there. -/
theorem exists_of_address_eq (h : Onward code p arrival turns q) (other : Arrival)
    (same : other.address = arrival.address) : ∃ rest,
      turns = arrival.turns ++ rest ∧ Onward code p other (other.turns ++ rest) q := by
  cases h with
  | accept ends =>
    refine ⟨[], (List.append_nil _).symm, ?_⟩
    rw [List.append_nil]
    exact .accept (same.trans ends)
  | @read chars char _ r rest inst member reads others direct =>
    rw [← same] at inst others ⊢
    exact ⟨_, rfl, .read inst member reads others direct⟩

theorem exists_turns_eq (h : Onward code p arrival turns q) :
    ∃ rest, turns = arrival.turns ++ rest := by
  obtain ⟨rest, ends, -⟩ := h.exists_of_address_eq arrival rfl
  exact ⟨rest, ends⟩

/-- At the last address nothing is read. -/
theorem eq_of_address_eq (h : Onward code p arrival turns q)
    (ends : arrival.address = code.size) : turns = arrival.turns ∧ q = p := by
  cases h with
  | accept => exact ⟨rfl, rfl⟩
  | read inst => simp [ends] at inst

/-- A direct run that goes on from where a trek leads is a direct run as a whole. -/
theorem candidate {source : Arrival} {sources : List Arrival} (member : source ∈ sources)
    (leads : source.Leads code p [] arrival) (h : Onward code p arrival turns q) :
    Candidate code sources p turns q := by
  obtain ⟨walked, ends, trek⟩ := leads
  refine ⟨source, member, ?_⟩
  cases h with
  | accept last =>
    exact ⟨walked, ends, last ▸ trek.walk.run, trek.areDirect⟩
  | @read chars char _ r rest inst contained reads others direct =>
    refine ⟨walked ++ ⟨arrival.address, p, 0⟩ :: rest, ?_, ?_, ?_⟩
    · rw [ends, List.append_assoc]
    · exact trek.walk.run.append (.step (.read inst contained reads) others)
    · have after := others.place_ne reads
      refine List.pairwise_append.2 ⟨trek.areDirect, List.pairwise_cons.2 ⟨?_, direct⟩, ?_⟩
      · intro turn later _ same
        exact after turn later same.symm
      · intro turn before
        have here := trek.walk.place_eq turn before
        refine List.forall_mem_cons.2 ⟨fun same => ?_, fun turn' later _ same => ?_⟩
        · -- The trek does not come to the address where it ends before.
          have once := (List.nodup_append.1 trek.once).2.2
          exact absurd same (once _ (List.mem_map_of_mem before) _ (List.mem_singleton_self _))
        · exact after turn' later (same.symm.trans here)

end Onward

/-- A direct run to the last address walks to an address where ways wait, and goes
on from there. -/
theorem Run.exists_walk (h : Run code a code.size p turns q) (direct : Turn.AreDirect turns) :
    ∃ walked w, Walk code p a walked w ∧ Waits code w ∧ Onward code p ⟨walked, w⟩ turns q := by
  generalize last : code.size = c at h
  induction h with
  | done =>
    subst last
    exact ⟨[], _, .here, .inl (by simp), .accept rfl⟩
  | @step a b c p q r choice turns step others ih =>
    subst last
    have later : Turn.AreDirect turns := (List.pairwise_cons.1 direct).2
    cases step with
    | go next =>
      obtain ⟨walked, w, walk, waits, onward⟩ := ih later rfl
      obtain ⟨rest, rfl, longer⟩ :=
        onward.exists_of_address_eq ⟨⟨a, p, choice⟩ :: walked, w⟩ rfl
      exact ⟨⟨a, p, choice⟩ :: walked, w, .go next walk, waits, longer⟩
    | read inst member reads =>
      exact ⟨[], a, .here, .inr ⟨_, inst⟩, .read inst member reads others later⟩

/-! ### What is found leads to the preferred candidates -/

namespace Explored

variable {sources found : List Arrival} {entered : List Nat}

theorem candidate (h : Explored code p [] sources found entered) {arrival : Arrival}
    (member : arrival ∈ found) (onward : Onward code p arrival turns q) :
    Candidate code sources p turns q := by
  obtain ⟨⟨source, begins, leads⟩, -⟩ := h.treks arrival member
  exact onward.candidate begins leads

/-- What a candidate does, something that is found does as well, and is preferred. -/
theorem exists_onward (h : Explored code p [] sources found entered)
    (way : Candidate code sources p turns q) : ∃ best ∈ found, ∃ others,
      Onward code p best others q ∧ (others = turns ∨ Turn.Before others turns) := by
  obtain ⟨source, begins, rest, rfl, run, direct⟩ := way
  obtain ⟨walked, w, walk, waits, onward⟩ := run.exists_walk direct
  obtain ⟨last, rfl, onward⟩ :=
    onward.exists_of_address_eq ⟨source.turns ++ walked, w⟩ rfl
  have clear : Turn.AreDirect walked := (List.pairwise_append.1 direct).1
  -- From the address where the candidate waits, the best arrival there goes on as it does.
  obtain ⟨best, member, same, order⟩ := h.first source begins ⟨source.turns ++ walked, w⟩
    ⟨walked, rfl, walk.trek waits clear⟩ waits
  obtain ⟨tail, ends, onward⟩ := onward.exists_of_address_eq best same
  obtain rfl := List.append_cancel_left ends
  refine ⟨best, member, _, onward, ?_⟩
  rw [← List.append_assoc]
  rcases order with rfl | before
  · exact .inl rfl
  · exact .inr (before.append _ _)

end Explored

/-! ### Answers -/

/-- A result is the end of the first of some ways, or `best` if there are none. -/
def Answers (ways : List Turn → Place → Prop) (best result : Option Nat) : Prop :=
  (∃ q, IsFirst ways q ∧ result = some (Text.size q.before)) ∨
    (∀ turns q, ¬ ways turns q) ∧ result = best

/-- What can be done at one of some arrivals. -/
def OneOnward (code : Array Inst) (p : Place) (arrivals : List Arrival) (turns : List Turn)
    (q : Place) : Prop :=
  ∃ arrival ∈ arrivals, Onward code p arrival turns q

namespace Answers

variable {sources found : List Arrival} {entered : List Nat} {best result : Option Nat}

theorem of_explored (h : Explored code p [] sources found entered)
    (answers : Answers (OneOnward code p found) best result) :
    Answers (Candidate code sources p) best result := by
  rcases answers with ⟨q, ⟨turns, ⟨arrival, member, onward⟩, least⟩, rfl⟩ | ⟨none, rfl⟩
  · refine .inl ⟨q, ⟨turns, h.candidate member onward, fun others r way => ?_⟩, rfl⟩
    obtain ⟨other, member, preferred, onward, order⟩ := h.exists_onward way
    rcases least preferred r ⟨other, member, onward⟩ with ⟨rfl, rfl⟩ | before
    · rcases order with rfl | after
      · exact .inl ⟨rfl, rfl⟩
      · exact .inr after
    · rcases order with rfl | after
      · exact .inr before
      · exact .inr (before.trans after)
  · refine .inr ⟨fun turns q way => ?_, rfl⟩
    obtain ⟨other, member, preferred, onward, -⟩ := h.exists_onward way
    exact none preferred q ⟨other, member, onward⟩

theorem eq_best {ways : List Turn → Place → Prop} (answers : Answers ways best result)
    (none : ∀ turns q, ¬ ways turns q) : result = best := by
  rcases answers with ⟨q, ⟨turns, way, -⟩, -⟩ | ⟨-, same⟩
  · exact absurd way (none turns q)
  · exact same

/-- A way that accepts comes before all those that are found after it. -/
theorem of_accepting {front back : List Arrival} {arrival : Arrival}
    (sorted : (front ++ arrival :: back).Pairwise Arrival.Before)
    (ends : arrival.address = code.size)
    (answers : Answers (OneOnward code p front) (some (Text.size p.before)) result) :
    Answers (OneOnward code p (front ++ arrival :: back)) best result := by
  obtain ⟨-, late, early⟩ := List.pairwise_append.1 sorted
  rcases answers with ⟨q, ⟨turns, ⟨first, member, onward⟩, least⟩, rfl⟩ | ⟨none, rfl⟩
  · refine .inl ⟨q, ⟨turns, ⟨first, List.mem_append_left _ member, onward⟩, ?_⟩, rfl⟩
    rintro others r ⟨other, member', onward'⟩
    -- Everything from the arrival on comes after all that is in front of it.
    rcases List.mem_append.1 member' with front | behind
    · exact least others r ⟨other, front, onward'⟩
    · obtain ⟨rest, rfl⟩ := onward.exists_turns_eq
      obtain ⟨rest', rfl⟩ := onward'.exists_turns_eq
      exact .inr ((early first member other behind).append rest rest')
  · refine .inl ⟨p, ⟨arrival.turns, ⟨arrival, ?_, .accept ends⟩, ?_⟩, rfl⟩
    · exact List.mem_append_right _ List.mem_cons_self
    · rintro others r ⟨other, member, onward⟩
      rcases List.mem_append.1 member with front | behind
      · exact absurd ⟨other, front, onward⟩ (none others r)
      · rcases List.mem_cons.1 behind with rfl | behind
        · exact .inl (onward.eq_of_address_eq ends)
        · obtain ⟨rest, rfl⟩ := onward.exists_turns_eq
          have before := ((List.pairwise_cons.1 late).1 other behind).append [] rest
          rw [List.append_nil] at before
          exact .inr before

end Answers

/-! ### Reading on -/

/-- Where an arrival goes on that reads a character. -/
def Arrival.readOn? (code : Array Inst) (p : Place) (char : Char) (arrival : Arrival) :
    Option Arrival :=
  (Inst.next? char arrival.address code[arrival.address]?).map fun address =>
    ⟨arrival.turns ++ [⟨arrival.address, p, 0⟩], address⟩

theorem Arrival.readOn?_eq_some_iff {char : Char} {arrival other : Arrival} :
    arrival.readOn? code p char = some other ↔ ∃ chars,
      code[arrival.address]? = some (.read chars) ∧ chars.contains char = true ∧
        other = ⟨arrival.turns ++ [⟨arrival.address, p, 0⟩], arrival.address + 1⟩ := by
  rw [readOn?]
  cases code[arrival.address]? with
  | none => simp [Inst.next?]
  | some inst =>
    cases inst with
    | read chars =>
      cases contained : chars.contains char <;> simp [Inst.next?, contained, @eq_comm _ other]
    | check place => simp [Inst.next?]
    | fork targets => simp [Inst.next?]

/-- The candidates after a character are what can be done at arrivals that do not accept. -/
theorem candidate_readOn_iff {before after : List Char} {char : Char} {arrivals : List Arrival}
    (apart : ∀ arrival ∈ arrivals, arrival.address ≠ code.size) :
    Candidate code (arrivals.filterMap (Arrival.readOn? code ⟨before, char :: after⟩ char))
        ⟨before ++ [char], after⟩ turns q ↔
      OneOnward code ⟨before, char :: after⟩ arrivals turns q := by
  constructor
  · rintro ⟨source, begins, rest, rfl, run, direct⟩
    obtain ⟨arrival, member, reads⟩ := List.mem_filterMap.1 begins
    obtain ⟨chars, inst, contained, rfl⟩ := Arrival.readOn?_eq_some_iff.1 reads
    refine ⟨arrival, member, ?_⟩
    rw [List.append_assoc]
    exact .read inst contained ⟨rfl, rfl⟩ run direct
  · rintro ⟨arrival, member, onward⟩
    cases onward with
    | accept ends => exact absurd ends (apart arrival member)
    | @read chars c _ r rest inst contained reads others direct =>
      obtain ⟨rfl, rfl⟩ : char = c ∧ ⟨before ++ [char], after⟩ = r := by
        obtain ⟨ahead, behind⟩ := reads
        obtain ⟨rfl, rfl⟩ : char = c ∧ after = r.after := by simpa using ahead
        exact ⟨rfl, by rw [← behind]⟩
      refine ⟨⟨arrival.turns ++ [⟨arrival.address, ⟨before, char :: after⟩, 0⟩],
          arrival.address + 1⟩,
        List.mem_filterMap.2 ⟨arrival, member, ?_⟩, rest, ?_, others, direct⟩
      · exact Arrival.readOn?_eq_some_iff.2 ⟨chars, inst, contained, rfl⟩
      · rw [List.append_assoc, List.singleton_append]

theorem readOn_sorted {char : Char} {arrivals : List Arrival}
    (sorted : arrivals.Pairwise Arrival.Before) :
    (arrivals.filterMap (Arrival.readOn? code p char)).Pairwise Arrival.Before := by
  refine List.pairwise_filterMap.2 (sorted.imp fun before next reads next' reads' => ?_)
  obtain ⟨-, -, -, rfl⟩ := Arrival.readOn?_eq_some_iff.1 reads
  obtain ⟨-, -, -, rfl⟩ := Arrival.readOn?_eq_some_iff.1 reads'
  exact before.append _ _

theorem map_address_readOn {char : Char} {arrivals : List Arrival} :
    (arrivals.filterMap (Arrival.readOn? code p char)).map Arrival.address =
      (arrivals.map Arrival.address).filterMap fun address =>
        Inst.next? char address code[address]? := by
  rw [List.map_filterMap, List.filterMap_map]
  refine List.filterMap_congr fun arrival _ => ?_
  simp [Arrival.readOn?, Function.comp_def]

/-- Arrivals none of which accepts, or those before the first that does. -/
theorem exists_accepting (code : Array Inst) (arrivals : List Arrival) :
    (∀ arrival ∈ arrivals, arrival.address ≠ code.size) ∨
      ∃ front arrival back, arrivals = front ++ arrival :: back ∧
        arrival.address = code.size ∧ ∀ other ∈ front, other.address ≠ code.size := by
  induction arrivals with
  | nil => exact .inl (List.forall_mem_nil _)
  | cons arrival arrivals ih =>
    by_cases ends : arrival.address = code.size
    · exact .inr ⟨[], arrival, arrivals, rfl, ends, List.forall_mem_nil _⟩
    · rcases ih with apart | ⟨front, other, back, rfl, accepts, apart⟩
      · exact .inl (List.forall_mem_cons.2 ⟨ends, apart⟩)
      · exact .inr ⟨arrival :: front, other, back, rfl, accepts,
          List.forall_mem_cons.2 ⟨ends, apart⟩⟩

namespace Program

variable {program : Program} {sources arrivals front back : List Arrival} {arrival : Arrival}
  {best : Option Nat} {before after : List Char} {char : Char}

theorem contains_size_of_ne (apart : ∀ arrival ∈ arrivals, arrival.address ≠ code.size) :
    (arrivals.map Arrival.address).contains code.size = false := by
  simpa using apart

theorem contains_size_of_accepting (ends : arrival.address = code.size) :
    ((front ++ arrival :: back).map Arrival.address).contains code.size = true := by
  simp [ends]

/-- None of the arrivals before the first that accepts is given up. -/
theorem takeWhile_of_ne (apart : ∀ arrival ∈ arrivals, arrival.address ≠ code.size) :
    (arrivals.map Arrival.address).takeWhile (· != code.size) = arrivals.map Arrival.address :=
  List.takeWhile_eq_self_iff.2 (by simpa using apart)

theorem takeWhile_of_accepting (apart : ∀ arrival ∈ front, arrival.address ≠ code.size)
    (ends : arrival.address = code.size) :
    ((front ++ arrival :: back).map Arrival.address).takeWhile (· != code.size) =
      front.map Arrival.address := by
  rw [List.map_append, List.takeWhile_append_of_pos (by simpa using apart)]
  simp [ends]

/-- Where nothing is left to read, only an arrival at the last address goes on. -/
theorem not_oneOnward_of_end (apart : ∀ arrival ∈ arrivals, arrival.address ≠ code.size)
    (turns : List Turn) (q : Place) : ¬ OneOnward code ⟨before, []⟩ arrivals turns q := by
  rintro ⟨arrival, member, onward⟩
  cases onward with
  | accept ends => exact apart arrival member ends
  | read _ _ reads => simp [Place.Reads] at reads

/-- What a search answers that reads on, if it is right after the character. -/
theorem answers_readOn
    (right : ∀ (sources : List Arrival) (best : Option Nat), sources.Pairwise Arrival.Before →
      Answers (Candidate program.code sources ⟨before ++ [char], after⟩) best
        (program.search (before ++ [char]).getLast? (Text.size (before ++ [char]))
          (sources.map Arrival.address) best after))
    (sorted : arrivals.Pairwise Arrival.Before)
    (apart : ∀ arrival ∈ arrivals, arrival.address ≠ program.code.size) :
    Answers (OneOnward program.code ⟨before, char :: after⟩ arrivals) best
      (if ((arrivals.map Arrival.address).filterMap fun address =>
          Inst.next? char address program.code[address]?).isEmpty then best
        else program.search (some char) (Text.size before + char.utf8Size)
          ((arrivals.map Arrival.address).filterMap fun address =>
            Inst.next? char address program.code[address]?) best after) := by
  have rest := right
    (arrivals.filterMap (Arrival.readOn? program.code ⟨before, char :: after⟩ char)) best
    (readOn_sorted sorted)
  have same : Candidate program.code
      (arrivals.filterMap (Arrival.readOn? program.code ⟨before, char :: after⟩ char))
      ⟨before ++ [char], after⟩ = OneOnward program.code ⟨before, char :: after⟩ arrivals := by
    funext turns q
    exact propext (candidate_readOn_iff apart)
  -- A search from no address at all answers with the match that it knew of.
  have known := (right [] best .nil).eq_best fun turns q way => by
    obtain ⟨source, member, -⟩ := way
    cases member
  simp only [List.getLast?_concat, Text.size_append, Text.size_cons, Text.size_nil, Nat.add_zero,
    List.map_nil] at rest known
  rw [same, map_address_readOn] at rest
  split
  · next none =>
    rw [List.isEmpty_iff.1 none, known] at rest
    exact rest
  · exact rest

/-- A search answers with the end of the first candidate. -/
theorem search_answers (before after : List Char) (sorted : sources.Pairwise Arrival.Before) :
    Answers (Candidate program.code sources ⟨before, after⟩) best
      (program.search before.getLast? (Text.size before) (sources.map Arrival.address) best
        after) := by
  induction after generalizing before sources best with
  | nil =>
    obtain ⟨found, entered, waiting, explored⟩ :=
      Frontier.exists_ofAddresses_eq program.code ⟨before, []⟩ sorted
    have waiting : Frontier.ofAddresses program.code before.getLast? none
        (sources.map Arrival.address) = found.map Arrival.address := waiting
    refine .of_explored explored ?_
    simp only [search, waiting]
    rcases exists_accepting program.code found with apart | ⟨front, arrival, back, rfl, ends, apart⟩
    · rw [contains_size_of_ne apart]
      exact .inr ⟨not_oneOnward_of_end apart, rfl⟩
    · rw [contains_size_of_accepting ends]
      exact .of_accepting explored.sorted ends (.inr ⟨not_oneOnward_of_end apart, rfl⟩)
  | cons char after ih =>
    obtain ⟨found, entered, waiting, explored⟩ :=
      Frontier.exists_ofAddresses_eq program.code ⟨before, char :: after⟩ sorted
    have waiting : Frontier.ofAddresses program.code before.getLast? (some char)
        (sources.map Arrival.address) = found.map Arrival.address := waiting
    -- After the character, the search is right whatever it goes on with.
    have right (sources : List Arrival) (best : Option Nat)
        (sorted : sources.Pairwise Arrival.Before) :
        Answers (Candidate program.code sources ⟨before ++ [char], after⟩) best _ :=
      ih (before ++ [char]) sorted
    refine .of_explored explored ?_
    simp only [search, waiting]
    rcases exists_accepting program.code found with apart | ⟨front, arrival, back, rfl, ends, apart⟩
    · rw [contains_size_of_ne apart, takeWhile_of_ne apart]
      exact answers_readOn right explored.sorted apart
    · rw [contains_size_of_accepting ends, takeWhile_of_accepting apart ends]
      exact .of_accepting explored.sorted ends
        (answers_readOn right (List.pairwise_append.1 explored.sorted).1 apart)

/-- **A search from the beginning of a program answers with the end of the first run that
accepts, among those that come to no address twice at one place.** -/
theorem matchEnd?_answers (program : Program) (p : Place) :
    Answers (fun turns q => Run program.code 0 program.code.size p turns q ∧ Turn.AreDirect turns)
      none (program.matchEnd? p.before p.after (Text.size p.before)) := by
  have answers : Answers (Candidate program.code [⟨[], 0⟩] p) none _ :=
    search_answers p.before p.after (List.pairwise_singleton _ _)
  have same : Candidate program.code [⟨[], 0⟩] p = fun turns q =>
      Run program.code 0 program.code.size p turns q ∧ Turn.AreDirect turns := by
    funext turns q
    simp [Candidate]
  rw [same] at answers
  exact answers

end Program

end Peg.Regex
