import Mathlib.Data.List.Rotate

/-!
# Processes with memories of their own

The machine that an operating system pretends to be: each process has a memory, and only the first
process, which has the processor, changes its own. `MemoryRun.mem` says what that is for: a process
finds its memory as it left it.
-/

namespace RawOS

/-- What happens to the machine. -/
inductive MemoryEvent where
  | kernel
  | own
  | start
  | fork
  | exit
  | switch
  deriving DecidableEq

section

variable {α M : Type*} {a : α} {m : M} {l l' : List (α × M)}

/-- A step of the machine, whose processes are named by `α`. -/
inductive MemoryStep : MemoryEvent → List (α × M) → List (α × M) → Prop where
  | kernel (l : List (α × M)) : MemoryStep .kernel l l
  | own {l l' : List (α × M)} : l'.map Prod.fst = l.map Prod.fst → l'.tail = l.tail →
    MemoryStep .own l l'
  | start (a : α) (m : M) : MemoryStep .start [] [(a, m)]
  | fork (a c : α) (m : M) (l : List (α × M)) :
    MemoryStep .fork ((a, m) :: l) ((a, m) :: l ++ [(c, m)])
  | exit (x : α × M) (l : List (α × M)) : MemoryStep .exit (x :: l) l
  | switch (l : List (α × M)) : MemoryStep .switch l (l.rotate 1)

/-- Any steps that the process `a` does not take. -/
inductive MemoryRun (a : α) (l : List (α × M)) : List (α × M) → Prop where
  | refl : MemoryRun a l l
  | step {e : MemoryEvent} {l₁ l₂ : List (α × M)} : MemoryRun a l l₁ →
    l₁.head?.map Prod.fst ≠ some a → MemoryStep e l₁ l₂ → MemoryRun a l l₂

/-- A step changes the memory of the first process only. -/
theorem MemoryStep.mem {e : MemoryEvent} (h : MemoryStep e l l')
    (hne : l.head?.map Prod.fst ≠ some a) (hm : (a, m) ∈ l) : (a, m) ∈ l' := by
  have htail : ∀ {x : α × M} {t : List (α × M)}, l = x :: t → (a, m) ∈ t := by
    rintro x t rfl
    rcases List.mem_cons.mp hm with rfl | hm
    · exact absurd rfl hne
    · exact hm
  cases h with
  | kernel => exact hm
  | own _ ht =>
    cases l with
    | nil => exact absurd hm List.not_mem_nil
    | cons x t =>
      rw [List.tail_cons] at ht
      exact List.mem_of_mem_tail (ht ▸ htail rfl)
  | start => exact absurd hm List.not_mem_nil
  | fork => exact List.mem_append_left _ hm
  | exit => exact htail rfl
  | switch => exact List.mem_rotate.mpr hm

/-- A process finds its memory as it left it. -/
theorem MemoryRun.mem (h : MemoryRun a l l') (hm : (a, m) ∈ l) : (a, m) ∈ l' := by
  induction h with
  | refl => exact hm
  | step _ hne hs ih => exact hs.mem hne ih

end

end RawOS
