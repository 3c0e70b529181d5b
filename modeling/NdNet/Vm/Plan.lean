import NdNet.Vm.Grammar

/-!
# What the compiler prints

A plan says how the units of an expression are put together.  `Plan.parts` are
the assembler lines for it, in the four parts in which the walk over the units
prints them, and the walk prints just these lines.
-/

namespace NdNet.Formula

open Climb

/-- How a list of units is compiled; a call comes with the line that computes
it. -/
inductive Plan where
  | leaf (text : List Char)
  | join (op : FormulaOp) (left right : Plan)
  | call1 (line : List Char) (argument : Plan)
  | call2 (line : List Char) (first second : Plan)

def moveLine (text : List Char) : List Char :=
  "\t MOV REG1, ".toList ++ text ++ "\n".toList

def opLine (op : FormulaOp) (text : List Char) : List Char :=
  (match op with
    | .assign => "\t MOV "
    | .add => "\t ADD "
    | .sub => "\t SUB "
    | .mul => "\t MUL "
    | .div => "\t DIV ").toList ++
    "REG1".toList ++ " , ".toList ++ text ++ " \n".toList

/-- The lines of a plan: `start` leaves the first operand in `REG1`, or else
`ready` makes it the operand `source`; `spine` does the rest. -/
structure Parts where
  start : List (List Char)
  ready : List (List Char)
  source : List Char
  spine : List (List Char)

namespace Parts

def lines (parts : Parts) : List (List Char) :=
  parts.start ++ parts.spine

def leaf (text : List Char) : Parts :=
  { start := [moveLine text]
    ready := []
    source := text
    spine := [] }

def call (lines : List (List Char)) : Parts :=
  { start := lines
    ready := "\t PUSH REG1 \n".toList ::
      (lines ++ ["\t MOV REG2, REG1 \n".toList, "\t POP REG1 \n".toList])
    source := "REG2".toList
    spine := [] }

def joinLines (op : FormulaOp) (parts : Parts) : List (List Char) :=
  parts.ready ++
    if parts.spine.isEmpty then [opLine op parts.source]
    else
      "\t PUSH REG1 \n".toList :: moveLine parts.source ::
        (parts.spine ++
          ["\t MOV REG2 , REG1 \n".toList, "\t POP REG1 \n".toList,
            opLine op "REG2".toList])

def extend (parts : Parts) (lines : List (List Char)) : Parts :=
  { parts with spine := parts.spine ++ lines }

end Parts

def Plan.parts : Plan → Parts
  | leaf text => .leaf text
  | join op left right => left.parts.extend (right.parts.joinLines op)
  | call1 line argument => .call (argument.parts.lines ++ [line])
  | call2 line first second =>
    .call (first.parts.lines ++
      "\t PUSH   REG1\n".toList :: (second.parts.lines ++
        ["\t PUSH   REG1\n".toList, line, "\t POP \n".toList,
          "\t POP \n".toList]))

def printLines (env : FormulaEnv) (out : AsmOut) (lines : List (List Char)) :
    Except TextFault AsmOut :=
  lines.foldlM (printLine env) out

section Print

variable (env : FormulaEnv)

@[simp] theorem printLines_nil (out : AsmOut) :
    printLines env out [] = pure out :=
  rfl

@[simp] theorem printLines_cons (out : AsmOut) (line : List Char)
    (lines : List (List Char)) :
    printLines env out (line :: lines) =
      printLine env out line >>= fun out => printLines env out lines :=
  List.foldlM_cons ..

@[simp] theorem printLines_append (out : AsmOut)
    (first second : List (List Char)) :
    printLines env out (first ++ second) =
      printLines env out first >>= fun out => printLines env out second :=
  List.foldlM_append ..

theorem outOpAsm_eq (out : AsmOut) (op : FormulaOp) (text : List Char) :
    outOpAsm env out (some op) "REG1".toList text =
      printLine env out (opLine op text) := by
  cases op <;> rfl

end Print

variable {previous : Option Int} {fuel : Nat}

section Walk

variable (env : FormulaEnv) {ω α : Type} (opOf : ω → FormulaOp)
  (unitOf : α → OpUnit) (planOf : α → Plan)

def front (unit : OpUnit) : List (Item ω α) → OpUnit
  | [] => unit
  | item :: _ => withOp opOf unit item

def behind : List (Item ω α) → List OpUnit
  | [] => []
  | item :: items => spread opOf unitOf (unitOf item.operand) items

theorem spread_eq (unit : OpUnit) (items : List (Item ω α)) :
    spread opOf unitOf unit items =
      front opOf unit items :: behind opOf unitOf items := by
  cases items <;> rfl

/-- A unit that is an operand, compiled as planned. -/
structure Operates (unit : OpUnit) (plan : Plan) : Prop where
  op : unit.op = none
  compiled :
    unit.isFunction = false ∧ plan.parts = .leaf unit.operand ∨
      unit.isFunction = true ∧ ∃ lines, plan.parts = .call lines ∧
        ∃ args : ArgsLeft, args.failed = false ∧
          ∃ rounds, ∀ fuel, rounds ≤ fuel → ∀ out,
            runFunction env (runExperssion env fuel) out unit =
              printLines env out lines >>= fun out => pure (args, out)

/-- An operand whose value is where `text` says. -/
structure Settled (unit : OpUnit) (text : List Char) : Prop where
  op : unit.op = none
  simple : unit.isFunction = false
  operand : unit.operand = text

/-- How the walk goes on with the next unit behind an operator. -/
def resume (fuel : Nat) (out : AsmOut) (previous : Option Int) :
    List OpUnit → Except TextFault CalcEnd
  | [] => pure ⟨out, [], false⟩
  | next :: rest =>
    if next.op = none ∨ previous.any fun level => decide (next.level < level)
    then pure ⟨out, next :: rest, false⟩
    else calcLoop env fuel out previous next rest false

variable {env opOf unitOf planOf}

theorem Operates.ready {unit : OpUnit} {plan : Plan}
    (operates : Operates env unit plan) :
    ∃ next : OpUnit, Settled next plan.parts.source ∧
      ∃ rounds, ∀ fuel, rounds ≤ fuel → ∀ out (items : List (Item ω α)),
        readyOperand env (runExperssion env fuel) out (front opOf unit items) =
          printLines env out plan.parts.ready >>= fun out =>
            pure (false, out, front opOf next items) := by
  rcases operates.compiled with
    ⟨simple, parts⟩ | ⟨function, lines, parts, args, ended, rounds, compiled⟩
  · refine ⟨unit, ⟨operates.op, simple, ?_⟩, 0, fun fuel _ out items => ?_⟩
    · rw [parts]
      rfl
    · have plain : (front opOf unit items).isFunction = false := by
        cases items <;> exact simple
      rw [readyOperand, plain, parts, if_neg Bool.false_ne_true]
      rfl
  · refine ⟨{ unit.leave args with
        operand := "REG2".toList
        isFunction := false }, ⟨operates.op, rfl, ?_⟩, rounds,
      fun fuel enough out items => ?_⟩
    · rw [parts]
      rfl
    · have called : (front opOf unit items).isFunction = true := by
        cases items <;> exact function
      have runs : ∀ out, runFunction env (runExperssion env fuel) out
          (front opOf unit items) =
          printLines env out lines >>= fun out => pure (args, out) := by
        intro out
        rw [← compiled fuel enough out]
        cases items <;> rfl
      rw [readyOperand, called, parts]
      simp only [if_true, runs, ended, bind_assoc, pure_bind,
        Bool.false_eq_true, if_false, Parts.call, printLines_cons,
        printLines_append, printLines_nil, bind_pure]
      cases items <;> rfl

theorem Operates.spine {unit : OpUnit} {plan : Plan}
    (operates : Operates env unit plan) : plan.parts.spine = [] := by
  rcases operates.compiled with ⟨-, parts⟩ | ⟨-, lines, parts, -⟩ <;>
    rw [parts] <;> rfl

theorem any_below_eq_false {level : Int} :
    (previous.any fun bound => decide (level < bound)) = false ↔
      Climb.Reaches previous level := by
  cases previous with
  | none => exact ⟨fun _ bound member => (nomatch member), fun _ => rfl⟩
  | some bound =>
    rw [Option.any_some, decide_eq_false_iff_not, Int.not_lt]
    constructor
    · intro le other member
      rw [Option.mem_some_iff] at member
      rw [← member]
      exact le
    · intro reaches
      exact reaches bound rfl

variable {item : Item ω α}

theorem calcLoop_join {rest : List (Item ω α)} (unit next settledNext : OpUnit)
    (ready : List (List Char)) (isRecursion : Bool)
    (reaches : Climb.Reaches previous item.level)
    (weaker : Head (· ≤ item.level) rest) (none : settledNext.op = none)
    (makes : ∀ out, readyOperand env (runExperssion env fuel) out
      (front opOf next rest) =
      printLines env out ready >>= fun out =>
        pure (false, out, front opOf settledNext rest)) (out : AsmOut) :
    calcLoop env (fuel + 1) out previous (withOp opOf unit item)
        (spread opOf unitOf next rest) isRecursion =
      printLines env out (ready ++
        [opLine (opOf item.op)
          (if isRecursion then "REG2".toList else settledNext.operand)]) >>=
        fun out => resume env fuel out previous
          (spread opOf unitOf settledNext rest) := by
  have prints : ∀ out text, outOpAsm env out (withOp opOf unit item).op
      "REG1".toList text = printLine env out (opLine (opOf item.op) text) :=
    fun out text => outOpAsm_eq env out _ text
  have operand : (front opOf settledNext rest).operand = settledNext.operand := by
    cases rest <;> rfl
  have level : (withOp opOf unit item).level = item.level := rfl
  rw [spread_eq, spread_eq, calcLoop, makes out]
  simp only [bind_assoc, pure_bind, Bool.false_eq_true, if_false,
    printLines_append, printLines_cons, printLines_nil, bind_pure, prints,
    operand, level]
  congr 1
  funext out
  cases rest with
  | nil =>
    have last : (front opOf settledNext ([] : List (Item ω α))).op =
        Option.none := none
    simp only [last, or_true, if_true, resume, true_or]
  | cons later rest =>
    have more : (front opOf settledNext (later :: rest)).op ≠
        Option.none := nofun
    have next : (front opOf settledNext (later :: rest)).level =
        later.level := rfl
    have low : later.level ≤ item.level := weaker later rfl
    simp only [more, or_false, if_false, next, resume, false_or]
    by_cases equal : item.level = later.level
    · -- on the same level there is no look at the previous unit
      have goes := any_below_eq_false.mpr (equal ▸ reaches)
      rw [if_pos equal]
      simp only [goes, Bool.false_eq_true, if_false]
    · rw [if_neg equal, if_pos (by omega)]

theorem calcLoop_group {rest : List (Item ω α)} (unit next settledNext : OpUnit)
    (ready : List (List Char))
    (stronger : ∃ later ∈ rest.head?, item.level < later.level)
    (makes : ∀ out, readyOperand env (runExperssion env fuel) out
      (front opOf next rest) =
      printLines env out ready >>= fun out =>
        pure (false, out, front opOf settledNext rest)) (out : AsmOut) :
    calcLoop env (fuel + 1) out previous (withOp opOf unit item)
        (spread opOf unitOf next rest) false =
      printLines env out (ready ++ ["\t PUSH REG1 \n".toList]) >>= fun out =>
        calcNodeResult env fuel out (some item.level)
          (spread opOf unitOf settledNext rest) >>= fun data =>
        printLines env data.out
          ["\t MOV REG2 , REG1 \n".toList, "\t POP REG1 \n".toList] >>=
        fun out => calcLoop env fuel out previous (withOp opOf unit item)
          data.units true := by
  have level : (withOp opOf unit item).level = item.level := rfl
  rw [spread_eq, spread_eq, calcLoop, makes out]
  simp only [bind_assoc, pure_bind, Bool.false_eq_true, if_false,
    printLines_append, printLines_cons, printLines_nil, bind_pure, level]
  congr 1
  funext out
  cases rest with
  | nil =>
    obtain ⟨later, member, -⟩ := stronger
    cases member
  | cons first rest =>
    obtain ⟨later, member, above⟩ := stronger
    rw [List.head?_cons, Option.mem_some_iff] at member
    subst member
    have more : (front opOf settledNext (first :: rest)).op ≠
        Option.none := nofun
    have next : (front opOf settledNext (first :: rest)).level =
        first.level := rfl
    rw [if_neg, if_neg]
    · omega
    · rintro (equal | nothing)
      · omega
      · exact more nothing

theorem calcNodeResult_settled {items : List (Item ω α)} (unit : OpUnit)
    (simple : unit.isFunction = false)
    (reaches : ∀ item ∈ items.head?, Climb.Reaches previous item.level)
    (none : unit.op = none) (enough : 0 < fuel) (out : AsmOut) :
    calcNodeResult env (fuel + 1) out previous
        (spread opOf unitOf unit items) =
      printLine env out (moveLine unit.operand) >>= fun out =>
        resume env fuel out previous (spread opOf unitOf unit items) := by
  have plain : (front opOf unit items).isFunction = false := by
    cases items <;> exact simple
  have operand : (front opOf unit items).operand = unit.operand := by
    cases items <;> rfl
  rw [spread_eq, calcNodeResult, plain, if_neg Bool.false_ne_true, operand]
  congr 1
  funext out
  obtain ⟨fuel, rfl⟩ : ∃ less, fuel = less + 1 := ⟨fuel - 1, by omega⟩
  cases items with
  | nil =>
    have last : (front opOf unit ([] : List (Item ω α))).op =
        Option.none := none
    rw [resume, if_pos (.inl last)]
    show calcLoop env (fuel + 1) out previous _ [] false = _
    rfl
  | cons item items =>
    have goes := any_below_eq_false.mpr (reaches item rfl)
    have level : (front opOf unit (item :: items)).level = item.level := rfl
    rw [resume, if_neg]
    rw [level, goes]
    rintro (nothing | below)
    · cases nothing
    · cases below

theorem Parts.extend_nil (parts : Parts) : parts.extend [] = parts := by
  rw [Parts.extend, List.append_nil]

theorem Parts.extend_extend (parts : Parts) (first second : List (List Char)) :
    (parts.extend first).extend second = parts.extend (first ++ second) := by
  rw [Parts.extend, Parts.extend, Parts.extend, List.append_assoc]

/-- The lines of an operator whose operand is grouped by a walk of its own. -/
theorem joinLines_group {unit : OpUnit} {plan : Plan} {parts : Parts}
    {added : List (List Char)} (operates : Operates env unit plan)
    (grouped : parts = plan.parts.extend added) (some : added ≠ [])
    (op : FormulaOp) :
    parts.joinLines op =
      plan.parts.ready ++ "\t PUSH REG1 \n".toList ::
        moveLine plan.parts.source ::
          (added ++ ["\t MOV REG2 , REG1 \n".toList,
            "\t POP REG1 \n".toList, opLine op "REG2".toList]) := by
  have spine : parts.spine = added := by
    rw [grouped, Parts.extend, operates.spine, List.nil_append]
  have more : added.isEmpty = false := List.isEmpty_eq_false_iff.mpr some
  rw [Parts.joinLines, spine, more, grouped]
  rfl

theorem joinLines_plain {unit : OpUnit} {plan : Plan}
    (operates : Operates env unit plan) (op : FormulaOp) :
    plan.parts.joinLines op =
      plan.parts.ready ++ [opLine op plan.parts.source] := by
  rw [Parts.joinLines, operates.spine]
  rfl

theorem resume_cons (reaches : Climb.Reaches previous item.level)
    (unit : OpUnit) (rest : List (Item ω α)) (out : AsmOut) :
    resume env fuel out previous (spread opOf unitOf unit (item :: rest)) =
      calcLoop env fuel out previous (withOp opOf unit item)
        (spread opOf unitOf (unitOf item.operand) rest) false := by
  have goes := any_below_eq_false.mpr reaches
  have level : (withOp opOf unit item).level = item.level := rfl
  rw [spread, resume, if_neg]
  rw [level, goes]
  rintro (nothing | below)
  · cases nothing
  · cases below

theorem resume_climbs {plan result : Plan} {items stopped : List (Item ω α)}
    (walk : Climbs planOf (fun op => Plan.join (opOf op)) previous plan items
      result stopped)
    (operates : ∀ item ∈ items,
      Operates env (unitOf item.operand) (planOf item.operand)) :
    ∃ added, result.parts = plan.parts.extend added ∧
      (∀ item ∈ items.head?, Climb.Reaches previous item.level → added ≠ []) ∧
      ∀ unit : OpUnit, unit.op = none → unit.isFunction = false →
        ∃ last : OpUnit, last.op = none ∧ last.isFunction = false ∧
          ∃ rounds, ∀ fuel, rounds ≤ fuel → ∀ out,
            resume env fuel out previous (spread opOf unitOf unit items) =
              printLines env out added >>= fun out =>
                pure ⟨out, spread opOf unitOf last stopped, false⟩ := by
  induction walk with
  | done =>
    refine ⟨[], (Parts.extend_nil _).symm, fun _ member => (nomatch member), ?_⟩
    intro unit none simple
    refine ⟨unit, none, simple, 0, fun fuel _ out => ?_⟩
    rw [spread, resume, if_pos (.inl none)]
    rfl
  | @stop previous tree item rest below =>
    refine ⟨[], (Parts.extend_nil _).symm, ?_, ?_⟩
    · intro other member reaches
      rw [List.head?_cons, Option.mem_some_iff] at member
      subst member
      exact absurd reaches below
    · intro unit none simple
      refine ⟨unit, none, simple, 0, fun fuel _ out => ?_⟩
      have stops := mt any_below_eq_false.mp below
      rw [Bool.not_eq_false] at stops
      rw [spread, resume, if_pos (.inr stops)]
      rfl
  | @plain previous tree result item rest stopped reaches weaker later induction =>
    obtain ⟨own, others⟩ := List.forall_mem_cons.mp operates
    obtain ⟨added, parts, -, prints⟩ := induction others
    refine ⟨(planOf item.operand).parts.joinLines (opOf item.op) ++ added, ?_,
      ?_, ?_⟩
    · rw [parts]
      exact Parts.extend_extend _ _ _
    · intro _ _ _ empty
      rw [joinLines_plain own] at empty
      simp at empty
    · intro unit none simple
      obtain ⟨next, ⟨nextNone, nextSimple, operand⟩, before, ready⟩ :=
        @Operates.ready env ω α opOf _ _ own
      obtain ⟨last, lastNone, lastSimple, rounds, prints⟩ :=
        prints _ nextNone nextSimple
      refine ⟨last, lastNone, lastSimple, max before rounds + 1,
        fun fuel enough out => ?_⟩
      obtain ⟨fuel, rfl⟩ : ∃ less, fuel = less + 1 := ⟨fuel - 1, by omega⟩
      rw [resume_cons reaches, calcLoop_join unit _ _ _ false reaches weaker
        nextNone fun out => ready fuel (by omega) out rest,
        joinLines_plain own, ← operand,
        printLines_append _ _ (_ ++ _) added, bind_assoc]
      congr 1
      funext out
      exact prints fuel (by omega) out
  | @group previous tree inner result item rest behind stopped reaches stronger
      walk later innerInduction induction =>
      obtain ⟨own, others⟩ := List.forall_mem_cons.mp operates
      obtain ⟨grouped, innerParts, some, innerPrints⟩ := innerInduction others
      obtain ⟨added, parts, -, prints⟩ := induction fun item member =>
        others item (walk.mem_of_mem_stopped item member)
      have reached : ∀ next ∈ rest.head?,
          Climb.Reaches (Option.some item.level) next.level := by
        intro next member bound same
        obtain ⟨first, present, above⟩ := stronger
        have equal : first = next := Option.mem_unique present member
        rw [Option.mem_some_iff] at same
        rw [← same, ← equal]
        exact Int.le_of_lt above
      have nonempty : grouped ≠ [] := by
        obtain ⟨first, present, -⟩ := stronger
        exact some first present (reached first present)
      have weaker : Head (· ≤ item.level) behind := by
        intro next member
        have below := walk.head next member
        by_contra above
        refine below fun bound same => ?_
        rw [Option.mem_some_iff] at same
        omega
      have lines := joinLines_group own innerParts nonempty (opOf item.op)
      refine ⟨inner.parts.joinLines (opOf item.op) ++ added, ?_, ?_, ?_⟩
      · rw [parts]
        exact Parts.extend_extend _ _ _
      · intro _ _ _ empty
        rw [lines] at empty
        simp at empty
      · intro unit none simple
        obtain ⟨next, ⟨nextNone, nextSimple, operand⟩, before, ready⟩ :=
          @Operates.ready env ω α opOf _ _ own
        obtain ⟨middle, middleNone, middleSimple, innerRounds, innerPrints⟩ :=
          innerPrints _ nextNone nextSimple
        obtain ⟨last, lastNone, lastSimple, rounds, prints⟩ :=
          prints middle middleNone middleSimple
        refine ⟨last, lastNone, lastSimple,
          max before (max innerRounds rounds) + 3, fun fuel enough out => ?_⟩
        obtain ⟨fuel, rfl⟩ : ∃ less, fuel = less + 1 + 1 :=
          ⟨fuel - 2, by omega⟩
        have plain : ∀ out, readyOperand env (runExperssion env fuel) out
            (front opOf middle behind) = printLines env out [] >>= fun out =>
              pure (false, out, front opOf middle behind) := by
          intro out
          have simple : (front opOf middle behind).isFunction = false := by
            cases behind <;> exact middleSimple
          rw [readyOperand, simple]
          rfl
        rw [resume_cons reaches, calcLoop_group unit _ _ _ stronger fun out =>
          ready (fuel + 1) (by omega) out rest]
        simp only [calcNodeResult_settled _ nextSimple reached nextNone
          (show 0 < fuel by omega), innerPrints fuel (by omega), bind_assoc,
          pure_bind]
        simp only [calcLoop_join unit middle middle [] true reaches weaker
          middleNone plain, prints fuel (by omega), lines, operand, if_true]
        simp

/-- `run_experssion` prints the lines of the plan and leaves `left` of the
units. -/
def Prints (env : FormulaEnv) (units : List OpUnit) (plan : Plan)
    (left : List OpUnit) : Prop :=
  ∃ rounds, ∀ fuel, rounds ≤ fuel → ∀ out,
    runExperssion env fuel out units =
      printLines env out plan.parts.lines >>= fun out => pure ⟨out, left, false⟩

theorem Operates.calcNodeResult {unit : OpUnit} {plan : Plan}
    (operates : Operates env unit plan) (items : List (Item ω α)) :
    ∃ first : OpUnit, first.op = none ∧ first.isFunction = false ∧
      ∃ rounds, ∀ fuel, rounds ≤ fuel → ∀ out,
        calcNodeResult env (fuel + 1) out none (spread opOf unitOf unit items) =
          printLines env out plan.parts.start >>= fun out =>
            resume env fuel out none (spread opOf unitOf first items) := by
  have reaches : ∀ item ∈ items.head?, Climb.Reaches none item.level :=
    fun _ _ bound member => (nomatch member)
  rcases operates.compiled with
    ⟨simple, parts⟩ | ⟨function, lines, parts, args, ended, rounds, compiled⟩
  · refine ⟨unit, operates.op, simple, 1, fun fuel enough out => ?_⟩
    rw [calcNodeResult_settled unit simple reaches operates.op enough, parts]
    simp only [Parts.leaf, printLines_cons, printLines_nil, bind_pure]
  · refine ⟨{ unit.leave args with isFunction := false }, operates.op, rfl,
      max rounds 1, fun fuel enough out => ?_⟩
    have called : (front opOf unit items).isFunction = true := by
      cases items <;> exact function
    have runs : ∀ out, runFunction env (runExperssion env fuel) out
        (front opOf unit items) =
        printLines env out lines >>= fun out => pure (args, out) := by
      intro out
      rw [← compiled fuel (by omega) out]
      cases items <;> rfl
    rw [spread_eq, Formula.calcNodeResult, called, if_pos rfl, runs, parts]
    simp only [bind_assoc, pure_bind, ended, Bool.false_eq_true, if_false]
    congr 1
    funext out
    obtain ⟨fuel, rfl⟩ : ∃ less, fuel = less + 1 := ⟨fuel - 1, by omega⟩
    cases items with
    | nil =>
      rw [spread, resume, if_pos (.inl operates.op)]
      show calcLoop env (fuel + 1) out none _ [] false = _
      rfl
    | cons item items =>
      rfl

theorem prints_climbs {first : α} {items : List (Item ω α)} {result : Plan}
    (walk : Climbs planOf (fun op => Plan.join (opOf op)) none (planOf first)
      items result [])
    (own : Operates env (unitOf first) (planOf first))
    (operates : ∀ item ∈ items,
      Operates env (unitOf item.operand) (planOf item.operand))
    (noAssign : ∀ item ∈ items.head?, opOf item.op ≠ .assign) :
    ∃ last, Prints env (spread opOf unitOf (unitOf first) items) result
      [last] := by
  obtain ⟨added, parts, -, prints⟩ := resume_climbs walk operates
  obtain ⟨unit, none, simple, before, starts⟩ :=
    @Operates.calcNodeResult env ω α opOf unitOf _ _ own items
  obtain ⟨last, -, -, rounds, prints⟩ := prints unit none simple
  refine ⟨last, max before rounds + 2, fun fuel enough out => ?_⟩
  obtain ⟨fuel, rfl⟩ : ∃ less, fuel = less + 1 + 1 := ⟨fuel - 2, by omega⟩
  have lines : result.parts.lines = (planOf first).parts.start ++ added := by
    rw [parts, Parts.lines, Parts.extend, own.spine, List.nil_append]
  have plain : (front opOf (unitOf first) items).op ≠ some .assign := by
    cases items with
    | nil =>
      show (unitOf first).op ≠ _
      rw [own.op]
      exact nofun
    | cons item items =>
      intro assign
      exact noAssign item rfl (Option.some.inj assign)
  have starts := starts fuel (by omega) out
  rw [spread_eq] at starts
  rw [spread_eq, runExperssion, if_neg plain, starts, lines]
  simp only [prints fuel (by omega), printLines_append, bind_assoc, pure_bind]
  rfl

end Walk

section Calls

variable {env : FormulaEnv} {unit : OpUnit} {line : List Char}

theorem Operates.call1 {argument : Plan} {left : List OpUnit}
    (op : unit.op = none) (function : unit.isFunction = true)
    (one : getFunParams unit.operand = 1)
    (prints : Prints env unit.param0 argument left)
    (called : ∀ out, runCall env out unit.operand left =
      printLine env out line) :
    Operates env unit (.call1 line argument) := by
  obtain ⟨rounds, prints⟩ := prints
  refine ⟨op, .inr ⟨function, _, rfl, ⟨left, unit.param1, false⟩, rfl, rounds,
    fun fuel enough out => ?_⟩⟩
  rw [runFunction, runParams, prints fuel enough, one]
  simp only [bind_assoc, pure_bind, Bool.false_eq_true, if_false, if_true,
    called, printLines_append, printLines_cons, printLines_nil]

theorem Operates.call2 {first second : Plan} {left leftSecond : List OpUnit}
    (op : unit.op = none) (function : unit.isFunction = true)
    (two : getFunParams unit.operand = 2)
    (prints : Prints env unit.param0 first left)
    (printsSecond : Prints env unit.param1 second leftSecond)
    (called : ∀ out, runCall env out unit.operand left =
      printLine env out line) :
    Operates env unit (.call2 line first second) := by
  obtain ⟨rounds, prints⟩ := prints
  obtain ⟨more, printsSecond⟩ := printsSecond
  refine ⟨op, .inr ⟨function, _, rfl, ⟨left, leftSecond, false⟩, rfl,
    max rounds more, fun fuel enough out => ?_⟩⟩
  rw [runFunction, runParams, prints fuel (by omega), two]
  simp only [bind_assoc, pure_bind, Bool.false_eq_true, if_false,
    show (2 : Nat) ≠ 1 by decide, called, printsSecond fuel (by omega),
    printLines_append, printLines_cons, printLines_nil]

theorem Operates.leaf (op : unit.op = none) (simple : unit.isFunction = false) :
    Operates env unit (.leaf unit.operand) :=
  ⟨op, .inl ⟨simple, rfl⟩⟩

end Calls

end NdNet.Formula
