import Mathlib.Order.Nat
import Peg.Proofs.Regex.Runs

/-!
# Rounds that read

Where no round of a repetition without bound can be done without reading, no way
comes to a part twice at one place. What a part does at a place can then be put
together with what any other way does there, so a way that came back without reading
would give a round that reads nothing.

## Main definitions

* `Place.UpTo`: a place is not behind another.
* `Expr.RoundsRead`: expressions whose rounds all read something.
* `Ways.AreForward`: ways that go forward at the parts of a range.
* `Ways.AreOrderly`: ways that go forward, and can be joined where they meet.

## Main results

* `Expr.areOrderly_way`: where all rounds read, the ways of an expression are orderly.
* `Expr.directWay_eq_stoppingWay`: where all rounds read, every way is direct, and it does
  not matter what a round that reads nothing would lead to.
-/

namespace Peg.Regex

variable {p q r s : Place}

/-! ### The order of places -/

/-- A place is in the same text as another, and not behind it. -/
def Place.UpTo (p q : Place) : Prop :=
  ∃ found, p.Reads found q

namespace Place.UpTo

theorem refl (p : Place) : p.UpTo p :=
  ⟨[], reads_nil_iff.2 rfl⟩

theorem trans (first : p.UpTo q) (second : q.UpTo r) : p.UpTo r := by
  obtain ⟨found, reads⟩ := first
  obtain ⟨more, others⟩ := second
  exact ⟨found ++ more, reads.trans others⟩

theorem antisymm (first : p.UpTo q) (second : q.UpTo p) : p = q := by
  obtain ⟨found, reads⟩ := first
  obtain ⟨more, others⟩ := second
  have lengths := congrArg List.length (reads.trans others).2
  have nothing : found = [] := by
    rw [← List.length_eq_zero_iff]
    rw [List.length_append, List.length_append] at lengths
    omega
  rw [nothing] at reads
  exact reads_nil_iff.1 reads

end Place.UpTo

/-- A turn at a part of a range, at a place between two others. -/
structure Turn.IsBetween (lo hi : Nat) (p q : Place) (turn : Turn) : Prop where
  least : lo ≤ turn.part
  most : turn.part < hi
  after : p.UpTo turn.place
  before : turn.place.UpTo q

theorem Turn.IsBetween.widen {lo hi lo' hi' : Nat} {turn : Turn} (h : turn.IsBetween lo hi q r)
    (below : lo' ≤ lo) (above : hi ≤ hi') (behind : p.UpTo q) (ahead : r.UpTo s) :
    turn.IsBetween lo' hi' p s :=
  ⟨below.trans h.least, h.most.trans_le above, behind.trans h.after, h.before.trans ahead⟩

/-! ### Forward ways -/

namespace Ways

/-- Ways that take their turns at the parts of a range, and do not go back in the text. -/
structure AreForward (lo hi : Nat) (ways : Ways) : Prop where
  upTo {p turns q} : ways p turns q → p.UpTo q
  between {p turns q} : ways p turns q → ∀ turn ∈ turns, turn.IsBetween lo hi p q

namespace AreForward

variable {lo hi lo' hi' part choice : Nat} {ways first second round : Ways} {turns : List Turn}

theorem nothing : AreForward lo hi fun _ _ _ => False where
  upTo := False.elim
  between := False.elim

theorem stay : AreForward lo hi .stay where
  upTo := by
    rintro p turns q ⟨-, rfl⟩
    exact .refl p
  between := by
    rintro p turns q ⟨rfl, -⟩
    exact List.forall_mem_nil _

/-- Ways that take one turn, where they begin. -/
theorem of_single
    (single : ∀ p turns q, ways p turns q → (∃ choice, turns = [⟨part, p, choice⟩]) ∧ p.UpTo q) :
    AreForward part (part + 1) ways where
  upTo := fun way => (single _ _ _ way).2
  between := by
    intro p turns q way
    obtain ⟨⟨choice, rfl⟩, ahead⟩ := single p turns q way
    exact List.forall_mem_singleton.2 ⟨Nat.le_refl part, Nat.lt_succ_self part, .refl p, ahead⟩

theorem widen (h : AreForward lo hi ways) (below : lo' ≤ lo) (above : hi ≤ hi') :
    AreForward lo' hi' ways where
  upTo := h.upTo
  between := fun {p _ q} way turn member =>
    (h.between way turn member).widen below above (.refl p) (.refl q)

theorem andThen (one : AreForward lo hi first) (two : AreForward lo hi second) :
    AreForward lo hi (first.andThen second) where
  upTo := by
    rintro p _ q ⟨r, begin, rest, way, others, rfl⟩
    exact (one.upTo way).trans (two.upTo others)
  between := by
    rintro p _ q ⟨r, begin, rest, way, others, rfl⟩
    refine List.forall_mem_append.2 ⟨fun turn member => ?_, fun turn member => ?_⟩
    · exact (one.between way turn member).widen le_rfl le_rfl (.refl p) (two.upTo others)
    · exact (two.between others turn member).widen le_rfl le_rfl (one.upTo way) (.refl q)

theorem either (one : AreForward lo hi first) (two : AreForward lo hi second) :
    AreForward lo hi (.either first second) where
  upTo := by
    rintro p turns q (way | way)
    · exact one.upTo way
    · exact two.upTo way
  between := by
    rintro p turns q (way | way)
    · exact one.between way
    · exact two.between way

/-- A loop goes forward, and so do its turns: those of its rounds, and the choices after them. -/
theorem loop_between {greedy : Bool} (forward : AreForward lo choice round) (below : lo ≤ choice)
    (looped : Ways.loop (fun _ _ => True) greedy choice round p turns q) :
    p.UpTo q ∧ ∀ turn ∈ turns, turn.IsBetween lo (choice + 1) p q := by
  induction looped with
  | @last p r begin way =>
    have ahead := forward.upTo way
    refine ⟨ahead, List.forall_mem_append.2 ⟨fun turn member => ?_, ?_⟩⟩
    · exact (forward.between way turn member).widen le_rfl (Nat.le_succ _) (.refl p) (.refl r)
    · exact List.forall_mem_singleton.2 ⟨below, Nat.lt_succ_self choice, ahead, .refl r⟩
  | @again p q r begin rest way _ _ ih =>
    obtain ⟨onward, others⟩ := ih
    have ahead := forward.upTo way
    refine ⟨ahead.trans onward, List.forall_mem_append.2 ⟨fun turn member => ?_,
      List.forall_mem_cons.2 ⟨?_, fun turn member => ?_⟩⟩⟩
    · exact (forward.between way turn member).widen le_rfl (Nat.le_succ _) (.refl p) onward
    · exact ⟨below, Nat.lt_succ_self choice, ahead, onward⟩
    · exact (others turn member).widen le_rfl le_rfl ahead (.refl q)

theorem loop (greedy : Bool) (forward : AreForward lo choice round) (below : lo ≤ choice) :
    AreForward lo (choice + 1) (Ways.loop (fun _ _ => True) greedy choice round) where
  upTo := fun looped => (forward.loop_between below looped).1
  between := fun looped => (forward.loop_between below looped).2

end AreForward

/-! ### Orderly ways -/

/-- Ways that take their turns at the parts of a range, do not go back in the text, come
to no part twice at one place, and can be joined where two of them meet. -/
structure AreOrderly (lo hi : Nat) (ways : Ways) : Prop extends AreForward lo hi ways where
  direct {p turns q} : ways p turns q → Turn.AreDirect turns
  joins {p turns q p' turns' q'} : ways p turns q → ways p' turns' q' →
    ∀ turn ∈ turns, ∀ turn' ∈ turns', turn.part = turn'.part → turn.place = turn'.place →
      ∃ joined, ways p joined q'

/-- What follows a choice, by which some ways begin. -/
def afterChoice (part : Nat) (ways : Ways) : Ways :=
  fun p turns q => ∃ choice, ways p (⟨part, p, choice⟩ :: turns) q

section AfterChoice

variable {part choice : Nat} {first second : Ways}

theorem afterChoice_either :
    afterChoice part (.either first second) =
      .either (afterChoice part first) (afterChoice part second) := by
  funext p turns q
  exact propext exists_or

theorem afterChoice_turn : afterChoice part (.turn part choice) = .stay := by
  funext p turns q
  simp [afterChoice, turn, stay]

theorem afterChoice_turn_andThen :
    afterChoice part ((turn part choice).andThen first) = first := by
  funext p turns q
  simp [afterChoice, turn_andThen_iff]

end AfterChoice

namespace AreOrderly

variable {lo mid hi part choice : Nat} {ways first second round : Ways} {turns : List Turn}

theorem nothing : AreOrderly lo hi fun _ _ _ => False where
  toAreForward := .nothing
  direct := False.elim
  joins := False.elim

theorem stay : AreOrderly lo hi .stay where
  toAreForward := .stay
  direct := by
    rintro p turns q ⟨rfl, -⟩
    exact .nil
  joins := by
    rintro p turns q p' turns' q' ⟨rfl, -⟩ -
    exact List.forall_mem_nil _

/-- Ways that take one turn, where they begin. -/
theorem of_single
    (single : ∀ p turns q, ways p turns q → (∃ choice, turns = [⟨part, p, choice⟩]) ∧ p.UpTo q) :
    AreOrderly part (part + 1) ways where
  toAreForward := .of_single single
  direct := by
    intro p turns q way
    obtain ⟨⟨choice, rfl⟩, -⟩ := single p turns q way
    exact List.pairwise_singleton _ _
  joins := by
    intro p turns q p' turns' q' way way' turn member turn' member' _ here
    obtain ⟨⟨choice, rfl⟩, -⟩ := single p turns q way
    obtain ⟨⟨choice', rfl⟩, -⟩ := single p' turns' q' way'
    obtain rfl := List.mem_singleton.1 member
    obtain rfl := List.mem_singleton.1 member'
    obtain rfl : p = p' := here
    exact ⟨_, way'⟩

theorem turn (part choice : Nat) : AreOrderly part (part + 1) (.turn part choice) := by
  apply of_single
  rintro p turns q ⟨rfl, rfl⟩
  exact ⟨⟨choice, rfl⟩, .refl p⟩

theorem read {chars : CharSet} : AreOrderly part (part + 1) (.read part chars) := by
  apply of_single
  rintro p turns q ⟨rfl, c, -, reads⟩
  exact ⟨⟨0, rfl⟩, [c], reads⟩

theorem check {place : Look} : AreOrderly part (part + 1) (.check part place) := by
  apply of_single
  rintro p turns q ⟨rfl, -, rfl⟩
  exact ⟨⟨0, rfl⟩, .refl p⟩

/-- Parts of ranges that do not overlap are not the same. -/
theorem part_ne (one : AreOrderly lo mid first) (two : AreOrderly mid hi second)
    {p q p' q' : Place} {turns turns' : List Turn} (way : first p turns q)
    (way' : second p' turns' q') : ∀ turn ∈ turns, ∀ turn' ∈ turns', turn.part ≠ turn'.part := by
  intro turn member turn' member' same
  have below := (one.between way turn member).most
  have above := (two.between way' turn' member').least
  omega

theorem andThen (one : AreOrderly lo mid first) (two : AreOrderly mid hi second)
    (below : lo ≤ mid) (above : mid ≤ hi) : AreOrderly lo hi (first.andThen second) where
  toAreForward :=
    (one.toAreForward.widen le_rfl above).andThen (two.toAreForward.widen below le_rfl)
  direct := by
    rintro p _ q ⟨r, begin, rest, way, others, rfl⟩
    refine List.pairwise_append.2 ⟨one.direct way, two.direct others, ?_⟩
    intro turn member later member' same
    exact absurd same (one.part_ne two way others turn member later member')
  joins := by
    -- The same part is in both ways before the place between, or in both after it.
    rintro p _ q p' _ q' ⟨r, begin, rest, way, others, rfl⟩ ⟨r', begin', rest', way', others', rfl⟩
      turn member turn' member' same here
    rcases List.mem_append.1 member with early | late
    · rcases List.mem_append.1 member' with early' | late'
      · obtain ⟨joined, way⟩ := one.joins way way' turn early turn' early' same here
        exact ⟨joined ++ rest', r', joined, rest', way, others', rfl⟩
      · exact absurd same (one.part_ne two way others' turn early turn' late')
    · rcases List.mem_append.1 member' with early' | late'
      · exact absurd same.symm (one.part_ne two way' others turn' early' turn late)
      · obtain ⟨joined, onward⟩ := two.joins others others' turn late turn' late' same here
        exact ⟨begin ++ joined, r, begin, joined, way, onward, rfl⟩

theorem either (one : AreOrderly lo mid first) (two : AreOrderly mid hi second)
    (below : lo ≤ mid) (above : mid ≤ hi) : AreOrderly lo hi (.either first second) where
  toAreForward :=
    (one.toAreForward.widen le_rfl above).either (two.toAreForward.widen below le_rfl)
  direct := by
    rintro p turns q (way | way)
    · exact one.direct way
    · exact two.direct way
  joins := by
    rintro p turns q p' turns' q' (way | way) (way' | way') turn member turn' member' same here
    · obtain ⟨joined, way⟩ := one.joins way way' turn member turn' member' same here
      exact ⟨joined, .inl way⟩
    · exact absurd same (one.part_ne two way way' turn member turn' member')
    · exact absurd same.symm (one.part_ne two way' way turn' member' turn member)
    · obtain ⟨joined, way⟩ := two.joins way way' turn member turn' member' same here
      exact ⟨joined, .inr way⟩

/-- A choice is taken first, and what follows it are ways at further parts. -/
theorem of_afterChoice (further : AreOrderly lo hi (ways.afterChoice part)) (below : part < lo)
    (above : part < hi)
    (begins : ∀ p turns q, ways p turns q → ∃ choice rest, turns = ⟨part, p, choice⟩ :: rest) :
    AreOrderly part hi ways where
  upTo := by
    intro p turns q way
    obtain ⟨choice, rest, rfl⟩ := begins p turns q way
    exact further.upTo ⟨choice, way⟩
  between := by
    intro p turns q way
    obtain ⟨choice, rest, rfl⟩ := begins p turns q way
    refine List.forall_mem_cons.2 ⟨?_, fun turn member => ?_⟩
    · exact ⟨Nat.le_refl part, above, .refl p, further.upTo ⟨choice, way⟩⟩
    · exact (further.between ⟨choice, way⟩ turn member).widen below.le le_rfl (.refl p) (.refl q)
  direct := by
    intro p turns q way
    obtain ⟨choice, rest, rfl⟩ := begins p turns q way
    refine List.pairwise_cons.2 ⟨fun turn member same => ?_, further.direct ⟨choice, way⟩⟩
    have least := (further.between ⟨choice, way⟩ turn member).least
    exact absurd same (below.trans_le least).ne
  joins := by
    intro p turns q p' turns' q' way way'
    obtain ⟨choice, rest, rfl⟩ := begins p turns q way
    obtain ⟨choice', rest', rfl⟩ := begins p' turns' q' way'
    intro turn member turn' member' same here
    -- The part of the choice comes before all others: both turns choose, or neither does.
    rcases List.mem_cons.1 member with rfl | late
    · rcases List.mem_cons.1 member' with rfl | late'
      · obtain rfl : p = p' := here
        exact ⟨_, way'⟩
      · have least := (further.between ⟨choice', way'⟩ turn' late').least
        exact absurd same (below.trans_le least).ne
    · rcases List.mem_cons.1 member' with rfl | late'
      · have least := (further.between ⟨choice, way⟩ turn late).least
        exact absurd same.symm (below.trans_le least).ne
      · obtain ⟨joined, index, onward⟩ :=
          further.joins ⟨choice, way⟩ ⟨choice', way'⟩ turn late turn' late' same here
        exact ⟨_, onward⟩

/-- Something is done after one choice, and nothing after the other. -/
theorem optional {stop goOn : Nat} (h : AreOrderly (part + 1) hi ways) (above : part < hi) :
    AreOrderly part hi (.either (.turn part stop) ((Ways.turn part goOn).andThen ways)) := by
  have further : AreOrderly (part + 1) hi (afterChoice part
      (.either (.turn part stop) ((Ways.turn part goOn).andThen ways))) := by
    rw [afterChoice_either, afterChoice_turn, afterChoice_turn_andThen]
    exact either stay h (Nat.le_refl _) above
  refine further.of_afterChoice (Nat.lt_succ_self part) above ?_
  rintro p turns q (⟨rfl, rfl⟩ | way)
  · exact ⟨stop, [], rfl⟩
  · obtain ⟨rest, rfl, -⟩ := turn_andThen_iff.1 way
    exact ⟨goOn, rest, rfl⟩

section Repetition

variable {size count base : Nat} {greedy : Bool} {body : Nat → Ways}

theorem copies (each : ∀ base, AreOrderly base (base + size) (body base)) :
    AreOrderly base (base + count * size) (Ways.copies size body count base) := by
  induction count generalizing base with
  | zero => exact stay
  | succ count ih =>
    have ends : base + (count + 1) * size = base + size + count * size := by
      rw [Nat.succ_mul]
      omega
    rw [ends]
    exact (each base).andThen ih (Nat.le_add_right _ _) (Nat.le_add_right _ _)

theorem options (each : ∀ base, AreOrderly base (base + size) (body base)) :
    AreOrderly base (base + count * (size + 1)) (Ways.options greedy size body count base) := by
  induction count generalizing base with
  | zero => exact stay
  | succ count ih =>
    have ends : base + (count + 1) * (size + 1) = base + 1 + size + count * (size + 1) := by
      rw [Nat.succ_mul]
      omega
    rw [ends]
    have once := (each (base + 1)).andThen ih (Nat.le_add_right _ _) (Nat.le_add_right _ _)
    exact once.optional (by omega)

theorem readAll {chars : List Char} :
    AreOrderly base (base + chars.length) (Ways.readAll base chars) := by
  induction chars generalizing base with
  | nil => exact stay
  | cons c chars ih =>
    have ends : base + (c :: chars).length = base + 1 + chars.length := by
      rw [List.length_cons]
      omega
    rw [ends]
    exact read.andThen ih (Nat.le_add_right _ _) (Nat.le_add_right _ _)

end Repetition

section Loop

variable {greedy : Bool} {turn : Turn}

/-- A turn that a loop takes where it begins is one of its first round. -/
theorem exists_round_of_place_eq (orderly : AreOrderly lo choice round) (below : lo ≤ choice)
    (reads : ∀ p turns, ¬ round p turns p)
    (looped : Ways.loop (fun _ _ => True) greedy choice round p turns q) (member : turn ∈ turns)
    (here : turn.place = p) : ∃ first r, round p first r ∧ turn ∈ first := by
  cases looped with
  | @last _ r begin way =>
    rcases List.mem_append.1 member with inside | after
    · exact ⟨begin, q, way, inside⟩
    · obtain rfl := List.mem_singleton.1 after
      obtain rfl : q = p := here
      exact absurd way (reads q begin)
  | @again _ _ r begin rest way _ others =>
    rcases List.mem_append.1 member with inside | after
    · exact ⟨begin, r, way, inside⟩
    · -- The first round has read something, so nothing after it is where it began.
      have behind : r.UpTo p := by
        rcases List.mem_cons.1 after with rfl | late
        · obtain rfl : r = p := here
          exact .refl r
        · rw [← here]
          exact ((orderly.toAreForward.loop_between below others).2 turn late).after
      obtain rfl := (orderly.upTo way).antisymm behind
      exact absurd way (reads p begin)

/-- Around a turn of a loop there is a round that can be left and entered otherwise. -/
theorem exists_round_around
    (looped : Ways.loop (fun _ _ => True) greedy choice round p turns q) (member : turn ∈ turns) :
    ∃ s r first, round s first r ∧ (turn ∈ first ∨ turn.part = choice ∧ turn.place = r) ∧
      (∀ p' begin, round p' begin r →
        ∃ others, Ways.loop (fun _ _ => True) greedy choice round p' others q) ∧
      ∀ q' rest, Ways.loop (fun _ _ => True) greedy choice round s rest q' →
        ∃ others, Ways.loop (fun _ _ => True) greedy choice round p others q' := by
  induction looped with
  | @last p r begin way =>
    refine ⟨p, r, begin, way, ?_, fun p' begin way => ⟨_, .last way⟩,
      fun q' rest looped => ⟨rest, looped⟩⟩
    rcases List.mem_append.1 member with inside | after
    · exact .inl inside
    · obtain rfl := List.mem_singleton.1 after
      exact .inr ⟨rfl, rfl⟩
  | @again p q r begin rest way _ others ih =>
    by_cases late : turn ∈ rest
    · -- The round is entered by way of the rounds before it.
      obtain ⟨s, r', first, way', inside, leave, enter⟩ := ih late
      refine ⟨s, r', first, way', inside, leave, fun q' rest looped => ?_⟩
      obtain ⟨others, looped⟩ := enter q' rest looped
      exact ⟨_, .again way trivial looped⟩
    · refine ⟨p, r, begin, way, ?_, fun p' begin way => ⟨_, .again way trivial others⟩,
        fun q' rest looped => ⟨rest, looped⟩⟩
      rcases List.mem_append.1 member with inside | after
      · exact .inl inside
      · obtain rfl := (List.mem_cons.1 after).resolve_right late
        exact .inr ⟨rfl, rfl⟩

/-- The ways of a loop are orderly if its rounds are, and if none of them stays. -/
theorem loop (greedy : Bool) (orderly : AreOrderly lo choice round) (below : lo ≤ choice)
    (reads : ∀ p turns, ¬ round p turns p) :
    AreOrderly lo (choice + 1) (Ways.loop (fun _ _ => True) greedy choice round) where
  toAreForward := orderly.toAreForward.loop greedy below
  direct := by
    intro p turns q looped
    induction looped with
    | @last p r begin way =>
      refine List.pairwise_append.2 ⟨orderly.direct way, List.pairwise_singleton _ _, ?_⟩
      intro turn member later single same
      obtain rfl := List.mem_singleton.1 single
      exact absurd same (orderly.between way turn member).most.ne
    | @again p q r begin rest way _ others ih =>
      have first {later : Turn} (member : later ∈ rest) (here : later.place = r) :=
        orderly.exists_round_of_place_eq below reads others member here
      refine List.pairwise_append.2 ⟨orderly.direct way, List.pairwise_cons.2 ⟨?_, ih⟩, ?_⟩
      · intro later member same here
        obtain ⟨begin, s, way, inside⟩ := first member here.symm
        exact absurd same.symm (orderly.between way later inside).most.ne
      · intro turn member
        have early := orderly.between way turn member
        refine List.forall_mem_cons.2 ⟨fun same => ?_, fun later member' same here => ?_⟩
        · exact absurd same early.most.ne
        · -- The end of one round and the beginning of the next would be a round that stays.
          have late := (orderly.toAreForward.loop_between below others).2 later member'
          have ends : turn.place = r := early.before.antisymm (here ▸ late.after)
          obtain ⟨begin', s, way', inside⟩ := first member' (here.symm.trans ends)
          obtain ⟨joined, stays⟩ :=
            orderly.joins way' way later inside turn member same.symm here.symm
          exact reads r joined stays
  joins := by
    intro p turns q p' turns' q' looped looped' turn member turn' member' same here
    obtain ⟨s, r, first, way, inside, -, enter⟩ := exists_round_around looped member
    obtain ⟨s', r', first', way', inside', leave, -⟩ := exists_round_around looped' member'
    -- A round that begins as the first way does there and ends as the second one does.
    have across : ∃ joined, round s joined r' := by
      rcases inside with early | ⟨last, ends⟩
      · rcases inside' with early' | ⟨last', -⟩
        · exact orderly.joins way way' turn early turn' early' same here
        · exact absurd (same.trans last') (orderly.between way turn early).most.ne
      · rcases inside' with early' | ⟨-, ends'⟩
        · exact absurd (same.symm.trans last) (orderly.between way' turn' early').most.ne
        · obtain rfl : r = r' := by rw [← ends, here, ends']
          exact ⟨first, way⟩
    obtain ⟨joined, way⟩ := across
    obtain ⟨others, looped⟩ := leave s joined way
    exact enter q' others looped

end Loop

end AreOrderly

end Ways

/-! ### Expressions whose rounds read -/

namespace Expr

mutual

/-- No round of a repetition without bound can be done without reading. -/
def RoundsRead : Expr → Prop
  | .empty | .literal _ | .set _ _ | .look _ => True
  | .repetition _ (some _) _ body => RoundsRead body
  | .repetition _ none _ body => (∀ p, ¬ body.Matches p p) ∧ RoundsRead body
  | .capture _ body => RoundsRead body
  | .concat items | .alternation items => AllRoundsRead items

/-- The same for several expressions. -/
def AllRoundsRead : List Expr → Prop
  | [] => True
  | item :: items => RoundsRead item ∧ AllRoundsRead items

end

/-- The choices of the branches from one on are no earlier than its own. -/
theorem exists_choice_of_branchWay {more : Place → Place → Prop} {branches : List Expr}
    {choice index base : Nat} {turns : List Turn}
    (h : BranchWay more choice index base branches p turns q) :
    ∃ taken rest, turns = ⟨choice, p, taken⟩ :: rest ∧ index ≤ taken := by
  induction branches generalizing index base with
  | nil => exact h.elim
  | cons branch branches ih =>
    rcases h with way | way
    · obtain ⟨rest, rfl, -⟩ := Ways.turn_andThen_iff.1 way
      exact ⟨index, rest, rfl, Nat.le_refl index⟩
    · obtain ⟨taken, rest, rfl, later⟩ := ih way
      exact ⟨taken, rest, rfl, Nat.le_of_succ_le later⟩

mutual

/-- Where all rounds read, the ways of an expression are orderly. -/
theorem areOrderly_way {expr : Expr} (inOrder : expr.Within .ordered) (reads : expr.RoundsRead)
    (base : Nat) :
    (expr.Way (fun _ _ => True) base).AreOrderly base (base + expr.size) := by
  match expr with
  | .empty => exact .stay
  | .literal chars => exact .readAll
  | .set _ chars => exact .read
  | .look place => exact .check
  | .repetition min (some max) greedy body =>
    have each (base : Nat) : (body.Way (fun _ _ => True) base).AreOrderly base (base + body.size) :=
      areOrderly_way inOrder.2 reads base
    rw [size, ← Nat.add_assoc]
    exact (Ways.AreOrderly.copies each).andThen (.options each) (Nat.le_add_right _ _)
      (Nat.le_add_right _ _)
  | .repetition 0 none greedy body =>
    have round := areOrderly_way inOrder.2 reads.2 (base + 1)
    have looped := round.loop greedy (Nat.le_add_right _ _) fun p turns way =>
      reads.1 p (way.matches inOrder.2)
    have ends : base + (body.size + 2) = base + 1 + body.size + 1 := by omega
    rw [size, ends]
    exact looped.optional (by omega)
  | .repetition (min + 1) none greedy body =>
    have each (base : Nat) : (body.Way (fun _ _ => True) base).AreOrderly base (base + body.size) :=
      areOrderly_way inOrder.2 reads.2 base
    have looped := (each (base + min * body.size)).loop greedy (Nat.le_add_right _ _)
      fun p turns way => reads.1 p (way.matches inOrder.2)
    rw [size, ← Nat.add_assoc, ← Nat.add_assoc]
    exact (Ways.AreOrderly.copies each).andThen looped (Nat.le_add_right _ _)
      (Nat.le_add_right _ (_ + 1))
  | .capture index body =>
    have inside : body.Within .ordered := inOrder
    have inner : body.RoundsRead := reads
    exact areOrderly_way inside inner base
  | .concat items => exact areOrderly_allWay inOrder reads base
  | .alternation branches =>
    have further := areOrderly_branchWay inOrder reads base 0 (base + 1)
    have ends : base + (sizeAll branches + branches.length + 1) =
        base + 1 + sizeAll branches + branches.length := by omega
    rw [size, ends]
    refine further.of_afterChoice (Nat.lt_succ_self base) (by omega) fun p turns q way => ?_
    obtain ⟨taken, rest, same, -⟩ := exists_choice_of_branchWay way
    exact ⟨taken, rest, same⟩

/-- The same for expressions one after another. -/
theorem areOrderly_allWay {items : List Expr} (inOrder : AllWithin .ordered items)
    (reads : AllRoundsRead items) (base : Nat) :
    (AllWay (fun _ _ => True) base items).AreOrderly base (base + sizeAll items) := by
  match items with
  | [] => exact .stay
  | item :: items =>
    have first := areOrderly_way inOrder.1 reads.1 base
    have rest := areOrderly_allWay inOrder.2 reads.2 (base + item.size)
    rw [sizeAll, ← Nat.add_assoc]
    exact first.andThen rest (Nat.le_add_right _ _) (Nat.le_add_right _ _)

/-- What follows the choice of a branch is orderly. -/
theorem areOrderly_branchWay {branches : List Expr} (inOrder : AllWithin .ordered branches)
    (reads : AllRoundsRead branches) (choice index base : Nat) :
    ((BranchWay (fun _ _ => True) choice index base branches).afterChoice choice).AreOrderly base
      (base + sizeAll branches + branches.length) := by
  match branches with
  | [] =>
    have nothing : (BranchWay (fun _ _ => True) choice index base []).afterChoice choice =
        fun _ _ _ => False := by
      funext p turns q
      simp [Ways.afterChoice, BranchWay]
    rw [nothing]
    exact .nothing
  | branch :: branches =>
    have first := areOrderly_way inOrder.1 reads.1 base
    have rest := areOrderly_branchWay inOrder.2 reads.2 choice (index + 1) (base + branch.size + 1)
    have taken := first.andThen (.turn _ 0) (Nat.le_add_right _ _) (Nat.le_succ _)
    have ends : base + sizeAll (branch :: branches) + (branch :: branches).length =
        base + branch.size + 1 + sizeAll branches + branches.length := by
      rw [sizeAll, List.length_cons]
      omega
    rw [BranchWay, Ways.afterChoice_either, Ways.afterChoice_turn_andThen, ends]
    exact taken.either rest (by omega) (by omega)

end

/-! ### Rounds that stop -/

theorem loop_ne_eq {greedy : Bool} {choice : Nat} {round : Ways}
    (reads : ∀ p turns, ¬ round p turns p) :
    Ways.loop (fun p q => p ≠ q) greedy choice round =
      .loop (fun _ _ => True) greedy choice round := by
  funext p turns q
  rw [eq_iff_iff]
  constructor
  · intro looped
    induction looped with
    | last way => exact .last way
    | again way _ _ ih => exact .again way trivial ih
  · intro looped
    induction looped with
    | last way => exact .last way
    | @again p q r begin rest way _ _ ih =>
      refine .again way (fun stays => ?_) ih
      subst stays
      exact reads p begin way

mutual

/-- Where all rounds read, it does not matter what a round that does not would lead to. -/
theorem way_ne_eq {expr : Expr} (inOrder : expr.Within .ordered) (reads : expr.RoundsRead)
    (base : Nat) : expr.Way (fun p q => p ≠ q) base = expr.Way (fun _ _ => True) base := by
  match expr with
  | .empty | .literal _ | .set _ _ | .look _ => rfl
  | .repetition min (some max) greedy body =>
    have same := funext fun base => way_ne_eq inOrder.2 reads base
    simp only [Way, same]
  | .repetition 0 none greedy body =>
    have same := way_ne_eq inOrder.2 reads.2 (base + 1)
    rw [Way, Way, same, loop_ne_eq fun p turns way => reads.1 p (way.matches inOrder.2)]
  | .repetition (min + 1) none greedy body =>
    have same (base : Nat) := way_ne_eq inOrder.2 reads.2 base
    rw [Way, Way, funext same, same, loop_ne_eq fun p turns way =>
      reads.1 p (way.matches inOrder.2)]
  | .capture index body =>
    have inside : body.Within .ordered := inOrder
    have inner : body.RoundsRead := reads
    exact way_ne_eq inside inner base
  | .concat items => exact allWay_ne_eq inOrder reads base
  | .alternation branches => exact branchWay_ne_eq inOrder reads base 0 (base + 1)

/-- The same for expressions one after another. -/
theorem allWay_ne_eq {items : List Expr} (inOrder : AllWithin .ordered items)
    (reads : AllRoundsRead items) (base : Nat) :
    AllWay (fun p q => p ≠ q) base items = AllWay (fun _ _ => True) base items := by
  match items with
  | [] => rfl
  | item :: items =>
    rw [AllWay, AllWay, way_ne_eq inOrder.1 reads.1, allWay_ne_eq inOrder.2 reads.2]

/-- The same for branches. -/
theorem branchWay_ne_eq {branches : List Expr} (inOrder : AllWithin .ordered branches)
    (reads : AllRoundsRead branches) (choice index base : Nat) :
    BranchWay (fun p q => p ≠ q) choice index base branches =
      BranchWay (fun _ _ => True) choice index base branches := by
  match branches with
  | [] => rfl
  | branch :: branches =>
    rw [BranchWay, BranchWay, way_ne_eq inOrder.1 reads.1, branchWay_ne_eq inOrder.2 reads.2]

end

/-- **Where no round can be done without reading, no way comes to a part twice at one
place, and the ways are those in which a round that reads nothing would stop.** -/
theorem directWay_eq_stoppingWay {expr : Expr} (inOrder : expr.Within .ordered)
    (reads : expr.RoundsRead) : expr.DirectWay = expr.StoppingWay := by
  funext p turns q
  rw [DirectWay, StoppingWay, way_ne_eq inOrder reads, eq_iff_iff]
  exact ⟨And.left, fun way => ⟨way, (areOrderly_way inOrder reads 0).direct way⟩⟩

end Expr

end Peg.Regex
