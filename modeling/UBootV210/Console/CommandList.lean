import UBootV210.Foundation.CString

/-! # Lists of command lines

`builtin_run_command_list` of common/main.c. A command line is run in a state, and
`builtin_run_command` returns -1 if it has failed and 0 or 1 if it has not. -/

namespace UBootV210.Console

section

variable {State : Type*} (run : List UInt8 → State → Int × State)

/-- The loop over the characters from `next` on, with the part of the line before them.
The last line is run behind the loop. -/
def runListLoop : List UInt8 → List UInt8 → State → Int × State
  | [], line, state =>
      if line ≠ [] then
        let (ret, state) := run line state
        (if ret ≥ 0 then 1 else 0, state)
      else
        (0, state)
  | character :: next, line, state =>
      if character = 10 then
        if line ≠ [] then
          let (ret, state) := run line state
          if ret < 0 then (1, state) else runListLoop next [] state
        else
          runListLoop next [] state
      else
        runListLoop next (line ++ [character]) state

def builtinRunCommandList (cmd : CString) (state : State) : Int × State :=
  runListLoop run cmd.bytes [] state

/-- The lines that are not empty are run up to the first that fails. The result says
whether there is none that fails. -/
def runLines : List (List UInt8) → State → Bool × State
  | [], state => (true, state)
  | line :: lines, state =>
      if line = [] then runLines lines state
      else if (run line state).1 < 0 then (false, (run line state).2)
      else runLines lines (run line state).2

/-- The right lines are run, and 0 is returned if none of them fails. -/
def ReportsAs (result : Int × State) (lines : List (List UInt8)) (state : State) : Prop :=
  result.2 = (runLines run lines state).2 ∧ (result.1 = 0 ↔ (runLines run lines state).1 = true)

def linesOf (text : List UInt8) : List (List UInt8) := text.splitOn 10

theorem linesOf_line (whole : 10 ∉ line) : linesOf line = [line] :=
  List.splitOn_eq_singleton whole

theorem linesOf_append (whole : 10 ∉ line) : linesOf (line ++ 10 :: rest) = line :: linesOf rest :=
  List.splitOn_append_cons_self_of_not_mem whole _

theorem linesOf_ne_nil : linesOf text ≠ [] := List.splitOn_ne_nil _ _

-- The induction is on the characters that are left; those before them have no newline.
theorem runListLoop_reports_iff (next : List UInt8) (whole : 10 ∉ line) (state : State) :
    ReportsAs run (runListLoop run next line state) (linesOf (line ++ next)) state ↔
      (linesOf (line ++ next)).getLast? = some [] ∨
        (runLines run (linesOf (line ++ next)).dropLast state).1 = false := by
  induction next generalizing line state with
  | nil =>
    rw [List.append_nil, linesOf_line whole]
    by_cases empty : line = []
    · simp [ReportsAs, runListLoop, runLines, empty]
    · by_cases fails : (run line state).1 < 0
      · simp [ReportsAs, runListLoop, runLines, empty, fails]
      · simp [ReportsAs, runListLoop, runLines, empty, fails, not_lt.mp fails]
  | cons character next induction =>
    by_cases newline : character = 10
    · rw [newline, linesOf_append whole, List.dropLast_cons_of_ne_nil linesOf_ne_nil,
        List.getLast?_cons_of_ne_nil linesOf_ne_nil]
      have rest := @induction [] List.not_mem_nil
      rw [List.nil_append] at rest
      by_cases empty : line = []
      · simpa [ReportsAs, runListLoop, runLines, empty] using rest state
      · by_cases fails : (run line state).1 < 0
        · simp [ReportsAs, runListLoop, runLines, empty, fails]
        · simpa [ReportsAs, runListLoop, runLines, empty, fails] using rest (run line state).2
    · have longer : 10 ∉ line ++ [character] := by simp [whole, Ne.symm newline]
      simpa [runListLoop, newline] using induction longer state

theorem reports_iff (cmd : CString) (state : State) :
    ReportsAs run (builtinRunCommandList run cmd state) (linesOf cmd.bytes) state ↔
      (linesOf cmd.bytes).getLast? = some [] ∨
        (runLines run (linesOf cmd.bytes).dropLast state).1 = false :=
  runListLoop_reports_iff run cmd.bytes List.not_mem_nil state

end

/-- A command without a newline that succeeds is reported as a failure. -/
theorem reports_single_line :
    let run := fun (_ : List UInt8) (count : Nat) => ((0 : Int), count + 1)
    builtinRunCommandList run ⟨[97], by decide⟩ 0 = (1, 1) ∧
      ¬ ReportsAs run (builtinRunCommandList run ⟨[97], by decide⟩ 0) (linesOf [97]) 0 := by
  refine ⟨rfl, ?_⟩
  rintro ⟨_, result⟩
  exact absurd (result.mpr (by decide)) (by decide)

end UBootV210.Console
