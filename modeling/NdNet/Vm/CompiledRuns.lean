import NdNet.Vm.Compile
import NdNet.Vm.Contained

/-!
# Compiled formulas in the memory of the machine

What the compiler makes of an expression is run by the machine that reads and
writes memory: it stays in its code, its stack and the memory it was given.
-/

namespace NdNet.Formula

open Touching

/-- The code of an expression that is accepted, whose memory operands the
assembler reads and whose nesting fits the stack is safe in every memory, and
leaves the usual value in `REG1` if the expression is regular. -/
theorem compiled_runs (env : FormulaEnv) (sum : Sum)
    (accepted : ∃ fuel bufSize code,
      vmParseExpression fuel env sum.text bufSize = .ok code)
    (legible : sum.legible = true)
    (fits : (sum.phrase 0).tree.nesting ≤ vmStackSize) :
    ∃ code, CompilesTo env sum.text code ∧
      ∀ (ops : VmOps) (memory : Nat → VmValue) (memSize : Nat),
        Safe code.length memSize
            (runCmd ops code code.length ⟨0, machineInit memory memSize, 0⟩) ∧
          ∃ after, (runCmd ops code code.length
              ⟨0, machineInit memory memSize, 0⟩).result =
                some (.returned 0 after) ∧
            (sum.regular = true → after.reg1 =
              sum.tree.value env ops (machineInit memory memSize).memory) := by
  obtain ⟨fuel, bufSize, code, accepted⟩ := accepted
  obtain ⟨short, few⟩ := Sum.accepted accepted
  obtain ⟨nodes, wellFormed, compiles, leaves⟩ :=
    @Sum.compiles env sum legible short few
  refine ⟨_, compiles, fun ops memory memSize => ?_⟩
  have room : ([] : List VmValue).length + (sum.phrase 0).tree.nesting ≤
      vmStackSize := by
    rw [List.length_nil, Nat.zero_add]
    exact fits
  obtain ⟨after, ran, reg2, final⟩ :=
    (leaves ops (machineInit memory memSize)).ok (Nat.not_lt.mpr room)
  have whole : (machineInit memory memSize).runCmd ops (InsNode.codeOf nodes) =
      .ok after := by
    rw [VmCpu.runCmd_codeOf ops wellFormed]
    exact ran
  have result := runCmd_of_runSteps machineInit_home rfl whole
  refine ⟨safe_of_result result, after, result, fun regular => ?_⟩
  rw [final, sum.tree_phrase 0 regular]

theorem compiled_runs_productLast :
    ∃ code, CompilesTo smallEnv productLast.text code ∧
      ∀ (ops : VmOps) (memory : Nat → VmValue) (memSize : Nat),
        Safe code.length memSize
          (runCmd ops code code.length ⟨0, machineInit memory memSize, 0⟩) := by
  have accepted : (vmParseExpression 10 smallEnv productLast.text 100).toOption =
      some [1, 4, 1, 0, 0, 32, 65, 6, 4, 1, 4, 1, 0, 0, 0, 64, 4, 4, 1, 0, 0, 64,
        64, 1, 5, 4, 7, 4, 3, 4, 5] := by
    decide +kernel
  obtain ⟨code, compiles, runs⟩ := compiled_runs smallEnv productLast
    ⟨10, 100, _, ok_of_toOption accepted⟩ rfl (by decide)
  exact ⟨code, compiles, fun ops memory memSize => (runs ops memory memSize).1⟩

end NdNet.Formula
