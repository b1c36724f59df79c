import Mathlib.Data.Finset.Card
import Mathlib.Data.Finset.Range
import Peg.Proofs.Regex.Runs

/-!
# Addresses entered between two characters

Between two characters a search enters every address once, and a way that comes to
an address that has been entered is given up. What can be done from there has been
done before, by a preferred way. So the addresses where ways wait are found in the
order of the most preferred ways that lead to them.

## Main definitions

* `Walk`: a run that reads nothing.
* `Trek`: a walk that comes to no address twice, and to none of some others.
* `Arrival`: an address to which a way leads, and the way.
* `Explored`: what is found from some arrivals on.

## Main results

* `Frontier.exists_ofAddresses_eq`: what a search finds between two characters.
-/

namespace Peg.Regex

/-- A run that stays at its place, by the choices it takes. -/
inductive Walk (code : Array Inst) (p : Place) : Nat → List Turn → Nat → Prop
  | here {a : Nat} : Walk code p a [] a
  | go {a b c choice : Nat} {turns : List Turn} (next : (successors code p a)[choice]? = some b)
    (rest : Walk code p b turns c) : Walk code p a (⟨a, p, choice⟩ :: turns) c

/-- The addresses that a walk comes to. -/
def visited (turns : List Turn) (last : Nat) : List Nat :=
  turns.map Turn.part ++ [last]

/-- A walk that comes to no address twice, and to none of `avoid`. -/
structure Trek (code : Array Inst) (p : Place) (avoid : List Nat) (a : Nat) (turns : List Turn)
    (b : Nat) : Prop where
  walk : Walk code p a turns b
  once : (visited turns b).Nodup
  fresh : ∀ address ∈ visited turns b, address ∉ avoid

/-- An address where a character is to be read, or where there is no instruction. -/
def Waits (code : Array Inst) (address : Nat) : Prop :=
  code[address]? = none ∨ ∃ chars, code[address]? = some (.read chars)

/-- An address to which a way leads, and all the turns that the way has taken. -/
structure Arrival where
  turns : List Turn
  address : Nat

namespace Arrival

/-- The order of preference of the ways. -/
def Before (arrival other : Arrival) : Prop :=
  Turn.Before arrival.turns other.turns

/-- A way goes on by a trek that stays clear of some addresses. -/
def Leads (code : Array Inst) (p : Place) (avoid : List Nat) (source arrival : Arrival) : Prop :=
  ∃ turns, arrival.turns = source.turns ++ turns ∧
    Trek code p avoid source.address turns arrival.address

/-- The ways that go on from an arrival by one turn. -/
def choices (code : Array Inst) (p : Place) (arrival : Arrival) : List Arrival :=
  (successors code p arrival.address).mapIdx fun choice b =>
    ⟨arrival.turns ++ [⟨arrival.address, p, choice⟩], b⟩

end Arrival

/-- What is found from some arrivals on where other addresses have been entered before:
everything within reach is entered, and the addresses where ways wait are found in
order of preference, each by the most preferred way. -/
structure Explored (code : Array Inst) (p : Place) (avoid : List Nat) (sources found : List Arrival)
    (entered : List Nat) : Prop where
  kept : avoid ⊆ entered
  begun : ∀ source ∈ sources, source.address ∈ entered
  closed : ∀ a ∈ entered, a ∉ avoid → successors code p a ⊆ entered
  reached : ∀ a ∈ entered, a ∉ avoid →
    ∃ source ∈ sources, ∃ turns, Trek code p avoid source.address turns a
  treks : ∀ arrival ∈ found,
    (∃ source ∈ sources, source.Leads code p avoid arrival) ∧ Waits code arrival.address
  sorted : found.Pairwise Arrival.Before
  first : ∀ source ∈ sources, ∀ arrival, source.Leads code p avoid arrival →
    Waits code arrival.address →
      ∃ best ∈ found, best.address = arrival.address ∧ (best = arrival ∨ best.Before arrival)

variable {code : Array Inst} {p : Place} {avoid : List Nat} {a b c : Nat} {turns : List Turn}

/-! ### Treks -/

namespace Trek

theorem here (fresh : a ∉ avoid) : Trek code p avoid a [] a :=
  ⟨.here, List.nodup_singleton a, List.forall_mem_singleton.2 fresh⟩

theorem go {choice : Nat} (fresh : a ∉ avoid) (next : (successors code p a)[choice]? = some b)
    (rest : Trek code p (a :: avoid) b turns c) :
    Trek code p avoid a (⟨a, p, choice⟩ :: turns) c := by
  obtain ⟨walk, once, others⟩ := rest
  refine ⟨.go next walk, List.nodup_cons.2 ⟨fun again => ?_, once⟩, ?_⟩
  · exact others a again List.mem_cons_self
  · refine List.forall_mem_cons.2 ⟨fresh, fun address member avoided => ?_⟩
    exact others address member (List.mem_cons_of_mem a avoided)

/-- A trek of several turns takes the first of them, and is a trek from there on. -/
theorem exists_go {turn : Turn} (h : Trek code p avoid a (turn :: turns) c) :
    ∃ choice b, turn = ⟨a, p, choice⟩ ∧ a ∉ avoid ∧ (successors code p a)[choice]? = some b ∧
      Trek code p (a :: avoid) b turns c := by
  obtain ⟨walk, once, fresh⟩ := h
  cases walk with
  | go next rest =>
    obtain ⟨begins, others⟩ := List.forall_mem_cons.1 fresh
    obtain ⟨apart, once⟩ := List.nodup_cons.1 once
    refine ⟨_, _, rfl, begins, next, rest, once, fun address member => ?_⟩
    rw [List.mem_cons, not_or]
    refine ⟨?_, others address member⟩
    rintro rfl
    exact apart member

theorem first_fresh (h : Trek code p avoid a turns c) : a ∉ avoid := by
  cases h.walk with
  | here => exact h.fresh a (by simp [visited])
  | go => exact h.fresh a (by simp [visited])

theorem last_fresh (h : Trek code p avoid a turns c) : c ∉ avoid :=
  h.fresh c (by simp [visited])

theorem anti {others : List Nat} (h : Trek code p others a turns c) (less : avoid ⊆ others) :
    Trek code p avoid a turns c :=
  ⟨h.walk, h.once, fun address member avoided => h.fresh address member (less avoided)⟩

end Trek

/-- Nothing leads out of addresses that are entered with all that follows them. -/
theorem Walk.mem_of_closed {entered : List Nat}
    (closed : ∀ a ∈ entered, a ∉ avoid → successors code p a ⊆ entered)
    (h : Walk code p a turns c) (fresh : ∀ address ∈ visited turns c, address ∉ avoid)
    (member : a ∈ entered) : c ∈ entered := by
  induction h with
  | here => exact member
  | go next _ ih =>
    obtain ⟨begins, others⟩ := List.forall_mem_cons.1 fresh
    exact ih others (closed _ member begins (List.mem_of_getElem? next))

/-- A trek that ends outside of such addresses never comes to one of them. -/
theorem Trek.avoids {entered : List Nat}
    (closed : ∀ a ∈ entered, a ∉ avoid → successors code p a ⊆ entered)
    (h : Trek code p avoid a turns c) (outside : c ∉ entered) : Trek code p entered a turns c := by
  obtain ⟨walk, once, fresh⟩ := h
  refine ⟨walk, once, ?_⟩
  -- The induction is on the walk and on what it stays clear of, nothing else.
  clear once
  induction walk with
  | here => exact List.forall_mem_singleton.2 outside
  | go next rest ih =>
    obtain ⟨begins, others⟩ := List.forall_mem_cons.1 fresh
    refine List.forall_mem_cons.2 ⟨fun member => ?_, ih outside others⟩
    exact outside ((Walk.go next rest).mem_of_closed closed fresh member)

/-! ### What is found -/

theorem successors_of_waits (h : Waits code a) : successors code p a = [] := by
  rcases h with none | ⟨chars, read⟩
  · simp [successors, none]
  · simp [successors, read]

namespace Arrival

variable {source arrival : Arrival} {sources : List Arrival}

theorem leads_self (fresh : source.address ∉ avoid) : source.Leads code p avoid source :=
  ⟨[], (List.append_nil _).symm, .here fresh⟩

theorem Leads.anti {others : List Nat} (h : source.Leads code p others arrival)
    (less : avoid ⊆ others) : source.Leads code p avoid arrival := by
  obtain ⟨turns, ends, trek⟩ := h
  exact ⟨turns, ends, trek.anti less⟩

theorem mem_choices_iff {other : Arrival} : other ∈ choices code p source ↔
    ∃ choice, (successors code p source.address)[choice]? = some other.address ∧
      other.turns = source.turns ++ [⟨source.address, p, choice⟩] := by
  obtain ⟨turns, address⟩ := other
  simp only [choices, List.mem_mapIdx, List.getElem?_eq_some_iff, mk.injEq]
  constructor
  · rintro ⟨choice, inside, ends, rfl⟩
    exact ⟨choice, ⟨inside, rfl⟩, ends.symm⟩
  · rintro ⟨choice, ⟨inside, rfl⟩, ends⟩
    exact ⟨choice, inside, ends.symm, rfl⟩

theorem map_address_choices :
    (choices code p source).map address = successors code p source.address := by
  refine List.ext_getElem (by simp [choices]) fun i inside inside' => ?_
  simp [choices]

theorem choices_sorted : (choices code p source).Pairwise Before := by
  rw [choices, List.pairwise_iff_getElem]
  intro i j inside inside' less
  simp only [List.getElem_mapIdx]
  exact ⟨source.turns, source.address, p, i, j, [], [], less, rfl, rfl⟩

/-- A way goes on through one of the choices. -/
theorem Leads.of_choice {other : Arrival} (fresh : source.address ∉ avoid)
    (member : other ∈ choices code p source)
    (h : other.Leads code p (source.address :: avoid) arrival) :
    source.Leads code p avoid arrival := by
  obtain ⟨choice, next, begins⟩ := mem_choices_iff.1 member
  obtain ⟨turns, ends, trek⟩ := h
  refine ⟨⟨source.address, p, choice⟩ :: turns, ?_, .go fresh next trek⟩
  rw [ends, begins, List.append_assoc, List.singleton_append]

/-- A way that goes on stays where it is, or takes one of the choices. -/
theorem Leads.eq_or_choice (h : source.Leads code p avoid arrival) : arrival = source ∨
    ∃ other ∈ choices code p source, other.Leads code p (source.address :: avoid) arrival := by
  obtain ⟨turns, ends, trek⟩ := h
  cases turns with
  | nil =>
    refine .inl ?_
    generalize same : arrival.address = address at trek
    cases trek.walk with
    | here =>
      rw [List.append_nil] at ends
      cases arrival
      cases source
      simp_all
  | cons turn turns =>
    obtain ⟨choice, b, rfl, -, next, trek⟩ := trek.exists_go
    refine .inr ⟨⟨source.turns ++ [⟨source.address, p, choice⟩], b⟩, ?_, turns, ?_, trek⟩
    · exact mem_choices_iff.2 ⟨choice, next, rfl⟩
    · rw [ends, List.append_assoc, List.singleton_append]

end Arrival

namespace Explored

variable {source : Arrival} {sources : List Arrival}

theorem nil : Explored code p avoid [] [] avoid where
  kept := List.Subset.refl avoid
  begun := List.forall_mem_nil _
  closed := fun _ member fresh => absurd member fresh
  reached := fun _ member fresh => absurd member fresh
  treks := List.forall_mem_nil _
  sorted := .nil
  first := List.forall_mem_nil _

theorem of_mem (member : source.address ∈ avoid) : Explored code p avoid [source] [] avoid where
  kept := List.Subset.refl avoid
  begun := List.forall_mem_singleton.2 member
  closed := fun _ member fresh => absurd member fresh
  reached := fun _ member fresh => absurd member fresh
  treks := List.forall_mem_nil _
  sorted := .nil
  first := by
    rw [List.forall_mem_singleton]
    rintro arrival ⟨turns, -, trek⟩
    exact absurd member trek.first_fresh

/-- An address where ways wait is found as it is entered. -/
theorem of_waits (fresh : source.address ∉ avoid) (waits : Waits code source.address) :
    Explored code p avoid [source] [source] (source.address :: avoid) where
  kept := List.subset_cons_self _ avoid
  begun := List.forall_mem_singleton.2 List.mem_cons_self
  closed := by
    intro b member outside
    rcases List.mem_cons.1 member with rfl | known
    · rw [successors_of_waits waits]
      exact List.nil_subset _
    · exact absurd known outside
  reached := by
    intro b member outside
    rcases List.mem_cons.1 member with rfl | known
    · exact ⟨source, List.mem_singleton_self _, [], .here outside⟩
    · exact absurd known outside
  treks := List.forall_mem_singleton.2
    ⟨⟨source, List.mem_singleton_self _, Arrival.leads_self fresh⟩, waits⟩
  sorted := List.pairwise_singleton _ _
  first := by
    rw [List.forall_mem_singleton]
    intro arrival leads _
    rcases leads.eq_or_choice with rfl | ⟨other, member, -⟩
    · exact ⟨arrival, List.mem_singleton_self _, rfl, .inl rfl⟩
    · simp [Arrival.choices, successors_of_waits waits] at member

/-- From an address that is left again, what is found is what its choices find. -/
theorem of_choices {found : List Arrival} {entered : List Nat} (fresh : source.address ∉ avoid)
    (leaves : ¬ Waits code source.address)
    (h : Explored code p (source.address :: avoid) (source.choices code p) found entered) :
    Explored code p avoid [source] found entered where
  kept := fun _ member => h.kept (List.mem_cons_of_mem _ member)
  begun := List.forall_mem_singleton.2 (h.kept List.mem_cons_self)
  closed := by
    intro b member outside
    by_cases same : b = source.address
    · intro next leads
      rw [same, ← Arrival.map_address_choices, List.mem_map] at leads
      obtain ⟨other, choice, rfl⟩ := leads
      exact h.begun other choice
    · exact h.closed b member (by simp [same, outside])
  reached := by
    intro b member outside
    by_cases same : b = source.address
    · rw [same]
      exact ⟨source, List.mem_singleton_self _, [], .here fresh⟩
    · obtain ⟨other, choice, turns, trek⟩ := h.reached b member (by simp [same, outside])
      have leads : source.Leads code p avoid ⟨other.turns ++ turns, b⟩ :=
        .of_choice fresh choice ⟨turns, rfl, trek⟩
      obtain ⟨turns, -, trek⟩ := leads
      exact ⟨source, List.mem_singleton_self _, turns, trek⟩
  treks := by
    intro arrival member
    obtain ⟨⟨other, choice, leads⟩, waits⟩ := h.treks arrival member
    exact ⟨⟨source, List.mem_singleton_self _, .of_choice fresh choice leads⟩, waits⟩
  sorted := h.sorted
  first := by
    rw [List.forall_mem_singleton]
    intro arrival leads waits
    rcases leads.eq_or_choice with rfl | ⟨other, choice, leads⟩
    · exact absurd waits leaves
    · exact h.first other choice arrival leads waits

/-- What the first arrival finds comes before what the others find after it. -/
theorem cons {found others : List Arrival} {middle entered : List Nat}
    (before : ∀ other ∈ sources, source.Before other)
    (one : Explored code p avoid [source] found middle)
    (rest : Explored code p middle sources others entered) :
    Explored code p avoid (source :: sources) (found ++ others) entered where
  kept := fun _ member => rest.kept (one.kept member)
  begun := List.forall_mem_cons.2 ⟨rest.kept (one.begun source List.mem_cons_self), rest.begun⟩
  closed := by
    intro b member outside
    by_cases inside : b ∈ middle
    · exact fun _ next => rest.kept (one.closed b inside outside next)
    · exact rest.closed b member inside
  reached := by
    intro b member outside
    by_cases inside : b ∈ middle
    · obtain ⟨first, single, turns, trek⟩ := one.reached b inside outside
      exact ⟨first, List.mem_cons.2 (.inl (List.mem_singleton.1 single)), turns, trek⟩
    · obtain ⟨other, further, turns, trek⟩ := rest.reached b member inside
      exact ⟨other, List.mem_cons_of_mem _ further, turns, trek.anti one.kept⟩
  treks := by
    refine List.forall_mem_append.2 ⟨fun arrival member => ?_, fun arrival member => ?_⟩
    · obtain ⟨⟨first, single, leads⟩, waits⟩ := one.treks arrival member
      exact ⟨⟨first, List.mem_cons.2 (.inl (List.mem_singleton.1 single)), leads⟩, waits⟩
    · obtain ⟨⟨other, further, leads⟩, waits⟩ := rest.treks arrival member
      exact ⟨⟨other, List.mem_cons_of_mem _ further, leads.anti one.kept⟩, waits⟩
  sorted := by
    refine List.pairwise_append.2 ⟨one.sorted, rest.sorted, fun arrival member other late => ?_⟩
    obtain ⟨⟨first, single, turns, ends, -⟩, -⟩ := one.treks arrival member
    obtain ⟨⟨second, further, turns', ends', -⟩, -⟩ := rest.treks other late
    obtain rfl := List.mem_singleton.1 single
    rw [Arrival.Before, ends, ends']
    exact (before second further).append turns turns'
  first := by
    refine List.forall_mem_cons.2 ⟨fun arrival leads waits => ?_,
      fun other further arrival leads waits => ?_⟩
    · obtain ⟨best, member, same⟩ := one.first source List.mem_cons_self arrival leads waits
      exact ⟨best, List.mem_append_left _ member, same⟩
    · obtain ⟨turns, ends, trek⟩ := leads
      -- Either the first arrival has entered the address, or the trek stays clear of all
      -- that it has entered, since nothing leads out of that.
      by_cases inside : arrival.address ∈ middle
      · -- A way of the first arrival has come there, and it is preferred.
        obtain ⟨first, single, known, reached⟩ := one.reached _ inside trek.last_fresh
        obtain ⟨best, member, same, -⟩ := one.first first single
          ⟨first.turns ++ known, arrival.address⟩ ⟨known, rfl, reached⟩ waits
        refine ⟨best, List.mem_append_left _ member, same, .inr ?_⟩
        obtain ⟨⟨first, single, turns', ends', -⟩, -⟩ := one.treks best member
        obtain rfl := List.mem_singleton.1 single
        rw [Arrival.Before, ends, ends']
        exact (before other further).append turns' turns
      · obtain ⟨best, member, same⟩ := rest.first other further arrival
          ⟨turns, ends, trek.avoids one.closed inside⟩ waits
        exact ⟨best, List.mem_append_right _ member, same⟩

end Explored

/-! ### The search between two characters -/

/-- The addresses of instructions that have not been entered. -/
def remaining (code : Array Inst) (entered : List Nat) : Finset Nat :=
  Finset.range code.size \ entered.toFinset

theorem card_remaining_le (code : Array Inst) {entered later : List Nat}
    (kept : entered ⊆ later) :
    (remaining code later).card ≤ (remaining code entered).card := by
  apply Finset.card_le_card
  apply Finset.sdiff_subset_sdiff (Finset.Subset.refl _)
  intro address member
  exact List.mem_toFinset.2 (kept (List.mem_toFinset.1 member))

theorem card_remaining_cons_lt {entered : List Nat} (fresh : a ∉ entered) (inside : a < code.size) :
    (remaining code (a :: entered)).card < (remaining code entered).card := by
  apply Finset.card_lt_card
  refine Finset.ssubset_iff_of_subset ?_ |>.2 ⟨a, ?_, ?_⟩
  · intro address member
    simp only [remaining, Finset.mem_sdiff, Finset.mem_range, List.mem_toFinset,
      List.mem_cons, not_or] at member ⊢
    exact ⟨member.1, member.2.2⟩
  · simp [remaining, fresh, inside]
  · simp [remaining]

theorem lt_size_of_not_waits (h : ¬ Waits code a) : a < code.size := by
  by_contra outside
  exact h (.inl (by simpa using outside))

namespace Frontier

variable {depth : Nat} {frontier : Frontier} {source : Arrival} {sources : List Arrival}

/-- An address that is new is entered, and then what follows it. -/
theorem enter_eq (fresh : a ∉ frontier.entered) (leaves : ¬ Waits code a) :
    enter code p.before.getLast? p.after.head? (depth + 1) frontier a =
      (successors code p a).foldl (enter code p.before.getLast? p.after.head? depth)
        { frontier with entered := a :: frontier.entered } := by
  cases inst : code[a]? with
  | none => exact absurd (.inl inst) leaves
  | some inst' =>
    cases inst' with
    | read chars => exact absurd (.inr ⟨chars, inst⟩) leaves
    | fork targets => simp [enter, fresh, successors, inst]
    | check place =>
      cases holds : place.holds p.before.getLast? p.after.head? <;>
        simp [enter, fresh, successors, inst, holds]

theorem enter_of_waits (fresh : a ∉ frontier.entered) (waits : Waits code a) :
    enter code p.before.getLast? p.after.head? (depth + 1) frontier a =
      ⟨a :: frontier.entered, a :: frontier.waiting⟩ := by
  rcases waits with none | ⟨chars, read⟩
  · simp [enter, fresh, none]
  · simp [enter, fresh, read]

/-- A search that goes through several arrivals, if it is right for each of them. -/
theorem exists_explored_foldl (frontier : Frontier)
    (each : ∀ frontier source, (remaining code frontier.entered).card < depth → ∃ found,
      (enter code p.before.getLast? p.after.head? depth frontier source.address).waiting =
          (found.map Arrival.address).reverse ++ frontier.waiting ∧
        Explored code p frontier.entered [source] found
          (enter code p.before.getLast? p.after.head? depth frontier source.address).entered)
    (sorted : sources.Pairwise Arrival.Before)
    (deep : (remaining code frontier.entered).card < depth) : ∃ found,
      ((sources.map Arrival.address).foldl (enter code p.before.getLast? p.after.head? depth)
          frontier).waiting = (found.map Arrival.address).reverse ++ frontier.waiting ∧
        Explored code p frontier.entered sources found
          ((sources.map Arrival.address).foldl (enter code p.before.getLast? p.after.head? depth)
            frontier).entered := by
  induction sources generalizing frontier with
  | nil => exact ⟨[], rfl, .nil⟩
  | cons source sources ih =>
    obtain ⟨before, sorted⟩ := List.pairwise_cons.1 sorted
    obtain ⟨found, waiting, one⟩ := each frontier source deep
    -- What has been entered stays entered, so the same bound is enough for the others.
    have deep := (card_remaining_le code one.kept).trans_lt deep
    obtain ⟨others, waiting', rest⟩ := ih _ sorted deep
    refine ⟨found ++ others, ?_, one.cons before rest⟩
    rw [List.map_cons, List.foldl_cons, waiting', waiting]
    simp

/-- A search from one arrival, if `depth` is more than the number of addresses that
can still be entered. -/
theorem exists_explored (depth : Nat) (frontier : Frontier) (source : Arrival)
    (deep : (remaining code frontier.entered).card < depth) : ∃ found,
      (enter code p.before.getLast? p.after.head? depth frontier source.address).waiting =
          (found.map Arrival.address).reverse ++ frontier.waiting ∧
        Explored code p frontier.entered [source] found
          (enter code p.before.getLast? p.after.head? depth frontier source.address).entered := by
  induction depth generalizing frontier source with
  | zero => exact absurd deep (Nat.not_lt_zero _)
  | succ depth ih =>
    by_cases known : source.address ∈ frontier.entered
    · have same : enter code p.before.getLast? p.after.head? (depth + 1) frontier source.address =
          frontier := by simp [enter, known]
      rw [same]
      exact ⟨[], rfl, .of_mem known⟩
    · by_cases waits : Waits code source.address
      · rw [enter_of_waits known waits]
        exact ⟨[source], rfl, .of_waits known waits⟩
      · -- The address itself is one less that can be entered.
        have fewer := card_remaining_cons_lt known (lt_size_of_not_waits waits)
        have deep : (remaining code (source.address :: frontier.entered)).card < depth := by omega
        rw [enter_eq known waits, ← Arrival.map_address_choices]
        obtain ⟨found, waiting, explored⟩ := exists_explored_foldl
          { frontier with entered := source.address :: frontier.entered } ih
          Arrival.choices_sorted deep
        exact ⟨found, waiting, explored.of_choices known waits⟩

/-- **What a search finds between two characters are the addresses where ways wait, in
the order of the most preferred ways that lead to them.** -/
theorem exists_ofAddresses_eq (code : Array Inst) (p : Place)
    (sorted : sources.Pairwise Arrival.Before) : ∃ found entered,
      ofAddresses code p.before.getLast? p.after.head? (sources.map Arrival.address) =
          found.map Arrival.address ∧
        Explored code p [] sources found entered := by
  have deep : (remaining code empty.entered).card < code.size + 1 := by
    simp [remaining, empty]
  obtain ⟨found, waiting, explored⟩ :=
    exists_explored_foldl (p := p) empty (exists_explored (code.size + 1)) sorted deep
  refine ⟨found, _, ?_, explored⟩
  rw [ofAddresses, waiting]
  simp [empty]

end Frontier

end Peg.Regex
