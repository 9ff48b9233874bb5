import RawOS.Keyboard
import Mathlib.Data.List.Nodup
import Mathlib.Data.List.Perm.Subperm

/-!
# Keyboard readers

Processes read from the keyboard, the processor switches between them, and keys arrive. A
registration is an address without a process: the handler follows it in the memory of the process
that it interrupts. `orderlyRun_keyboard` says when this is the memory of the reader.
-/

namespace RawOS

/-- The keyboard, the memory of each process, and where a process that waits in the loop of
`dev_read` has its `kerb`. `owners` records which process made each registration; the kernel does
not keep it. -/
structure Readers where
  keyboard : KeyboardState
  mems : ℕ → Mem
  active : ℕ
  waiting : ℕ → Option ℕ
  owners : List ℕ

/-- What can happen next. -/
inductive ReaderEvent where
  | read (kerb buf size : ℕ)
  | interrupt (scanCode : UInt8)
  | switch (process : ℕ)
  | resume
  | write (m : Mem)

open ReaderEvent in
/-- One step. The active process calls `dev_read`, sees that its event was received and goes on, or
writes to its memory, where its `kerb` stays as it is while it waits; a key is pressed or released;
another process becomes active. -/
inductive ReaderStep : Readers → ReaderEvent → Readers → Prop where
  | read {s : Readers} {kerb buf size : ℕ} {k : KeyboardState} {m : Mem} :
    s.waiting s.active = none → kerb + 16 ≤ 4294967296 →
    devReadKeyboard s.keyboard (s.mems s.active) kerb buf size = .ok (k, m) →
    ReaderStep s (read kerb buf size)
      ⟨k, Function.update s.mems s.active m, s.active,
        Function.update s.waiting s.active (some kerb), s.owners ++ [s.active]⟩
  | interrupt {s : Readers} {scanCode : UInt8} {k : KeyboardState} {m : Mem} :
    keyboardInterruptHandler s.keyboard (s.mems s.active) scanCode = (k, m) →
    ReaderStep s (interrupt scanCode)
      ⟨k, Function.update s.mems s.active m, s.active, s.waiting,
        s.owners.take k.keyboardEventBuffersNum⟩
  | switch {s : Readers} {process : ℕ} :
    ReaderStep s (switch process) { s with active := process }
  | resume {s : Readers} {kerb : ℕ} :
    s.waiting s.active = some kerb → kerbEventReceived (s.mems s.active) kerb ≠ 0 →
    ReaderStep s resume { s with waiting := Function.update s.waiting s.active none }
  | write {s : Readers} {m : Mem} :
    (∀ kerb, s.waiting s.active = some kerb → ∀ x, kerb ≤ x → x < kerb + 16 →
      m x = s.mems s.active x) →
    ReaderStep s (write m) { s with mems := Function.update s.mems s.active m }

/-- Process `p` has a read that was not served. -/
def Pending (s : Readers) (p kerb : ℕ) : Prop :=
  s.waiting p = some kerb ∧ kerbEventReceived (s.mems p) kerb = 0

/-- The scan code is that of a character key that is pressed. -/
def CharacterPress (k : KeyboardState) (scanCode : UInt8) : Prop :=
  (k.keyLookupTable scanCode.toNat).has keyCharacter ∧ (k.keyLookupTable scanCode.toNat).has keyPress

/-- Every read that was not served is registered. -/
def KeyKept (s : Readers) : Prop :=
  ∀ p kerb, Pending s p kerb → ∃ i < s.keyboard.keyboardEventBuffersNum,
    s.owners[i]? = some p ∧ s.keyboard.keyboardEventBuffers i = kerb

/-- The key was delivered to every process with a pending read, and no other memory was written. -/
structure KeyServed (s s' : Readers) (out : UInt8) : Prop where
  pending : ∀ p kerb, Pending s p kerb → s'.mems p = deliverKey (s.mems p) kerb out
  others : ∀ p, (∀ kerb, ¬ Pending s p kerb) → s'.mems p = s.mems p

/-- Fewer than `keyboardEventBuffersMax` processes have a pending read. -/
def FewReaders (s : Readers) : Prop :=
  ∀ ps : List ℕ, ps.Nodup → (∀ p ∈ ps, ∃ kerb, Pending s p kerb) →
    ps.length < keyboardEventBuffersMax

/-- No character key is pressed while a process that is not active waits for one, and no process
reads while `keyboardEventBuffersMax` others wait. -/
def Orderly (s : Readers) : ReaderEvent → Prop
  | .read _ _ _ => FewReaders s
  | .interrupt scanCode =>
    CharacterPress s.keyboard scanCode → ∀ p kerb, Pending s p kerb → p = s.active
  | _ => True

/-- The states after `keyboard_init` and orderly steps. -/
inductive OrderlyRun : Readers → Prop where
  | init (mems : ℕ → Mem) (active : ℕ) :
    OrderlyRun ⟨keyboardInit, mems, active, fun _ => none, []⟩
  | step {s s' : Readers} {e : ReaderEvent} :
    OrderlyRun s → Orderly s e → ReaderStep s e s' → OrderlyRun s'

/-! ## One step -/

section Kerb

variable {m m' : Mem} {kerb buf size : ℕ} {out : UInt8}

theorem kerbEventReceived_congr (h : ∀ x, kerb ≤ x → x < kerb + 16 → m' x = m x) :
    kerbEventReceived m' kerb = kerbEventReceived m kerb :=
  load32_congr fun x h₁ h₂ => h x (by omega) (by omega)

theorem kerbEventReceived_deliverKey : kerbEventReceived (deliverKey m kerb out) kerb = 1 := by
  unfold kerbEventReceived deliverKey setKerbBufferFilled setKerbEventReceived
  rw [load32_store32_of_disjoint (by omega), load32_store32_eq rfl (by decide)]

/-- A registration goes to the end of the array, and the event is not yet received. -/
theorem devReadKeyboard_eq (k : KeyboardState) :
    ∃ m', (k.keyboardEventBuffersNum < keyboardEventBuffersMax →
      devReadKeyboard k m kerb buf size = .ok ({ k with
        keyboardEventBuffers :=
          Function.update k.keyboardEventBuffers k.keyboardEventBuffersNum kerb
        keyboardEventBuffersNum := k.keyboardEventBuffersNum + 1 }, m')) ∧
      (keyboardEventBuffersMax ≤ k.keyboardEventBuffersNum →
        ∀ r, devReadKeyboard k m kerb buf size ≠ .ok r) ∧
      kerbEventReceived m' kerb = 0 := by
  unfold devReadKeyboard keyboardRegisterEventBuffer
  refine ⟨_, fun h => if_pos h, fun h r => ?_, ?_⟩
  · rw [if_neg (Nat.not_lt.mpr h)]
    simp
  · unfold kerbEventReceived setKerbBufferFilled setKerbEventReceived
    rw [load32_store32_of_disjoint (by omega), load32_store32_eq rfl (by decide)]

end Kerb

section Handler

variable {k : KeyboardState} {m : Mem} {scanCode : UInt8}

theorem keyboardInterruptHandler_press (h : CharacterPress k scanCode) :
    keyboardInterruptHandler k m scanCode = ({ k with keyboardEventBuffersNum := 0 },
      deliverKeys k m (getKeyCharacter k (k.keyLookupTable scanCode.toNat).keyCode)
        k.keyboardEventBuffersNum) := by
  unfold keyboardInterruptHandler
  rw [if_pos h.1, if_pos h.2]

/-- Any other key leaves the registrations and the memory alone. -/
theorem keyboardInterruptHandler_other (h : ¬ CharacterPress k scanCode) :
    ∃ shift, keyboardInterruptHandler k m scanCode = ({ k with shiftEnabled := shift }, m) := by
  unfold keyboardInterruptHandler
  unfold CharacterPress at h
  dsimp only
  split_ifs with h₁ h₂ h₃ h₄ h₅ h₆ h₇
  · exact absurd ⟨h₁, h₂⟩ h
  all_goals
    first
    | exact ⟨_, rfl⟩

end Handler

/-- The registrations are those of the pending reads. -/
structure Registered (s : Readers) : Prop where
  num : s.keyboard.keyboardEventBuffersNum = s.owners.length
  nodup : s.owners.Nodup
  pending : ∀ p kerb, Pending s p kerb ↔
    ∃ i, s.owners[i]? = some p ∧ s.keyboard.keyboardEventBuffers i = kerb

namespace Registered

variable {s s' : Readers} {p kerb : ℕ}

theorem kept (h : Registered s) : KeyKept s := by
  intro p kerb hp
  obtain ⟨i, hi, hk⟩ := (h.pending p kerb).mp hp
  refine ⟨i, ?_, hi, hk⟩
  rw [h.num]
  exact (List.getElem?_eq_some_iff.mp hi).1

theorem mem_owners (h : Registered s) : p ∈ s.owners ↔ ∃ kerb, Pending s p kerb := by
  rw [List.mem_iff_getElem?]
  constructor
  · rintro ⟨i, hi⟩
    exact ⟨_, (h.pending p _).mpr ⟨i, hi, rfl⟩⟩
  · rintro ⟨kerb, hp⟩
    obtain ⟨i, hi, -⟩ := (h.pending p kerb).mp hp
    exact ⟨i, hi⟩

/-- The array is indexed by the number of processes that wait. -/
theorem fewReaders_iff (h : Registered s) :
    FewReaders s ↔ s.keyboard.keyboardEventBuffersNum < keyboardEventBuffersMax := by
  rw [h.num]
  constructor
  · exact fun hfew => hfew s.owners h.nodup fun p hp => h.mem_owners.mp hp
  · intro hlt ps hps hpend
    have hsub : ps ⊆ s.owners := fun p hp => h.mem_owners.mpr (hpend p hp)
    exact lt_of_le_of_lt (hps.subperm hsub).length_le hlt

/-- Where only the active process waits, at most one buffer is registered. -/
theorem owners_of_orderly (h : Registered s) (ho : ∀ p kerb, Pending s p kerb → p = s.active) :
    s.owners = [] ∨ s.owners = [s.active] := by
  have hall : ∀ p ∈ s.owners, p = s.active := fun p hp => by
    obtain ⟨kerb, hpend⟩ := h.mem_owners.mp hp
    exact ho p kerb hpend
  rcases hs : s.owners with _ | ⟨p, _ | ⟨q, ps⟩⟩
  · exact .inl rfl
  · rw [hs] at hall
    rw [hall p List.mem_cons_self]
    exact .inr rfl
  · -- two registrations of one process
    have hnd := h.nodup
    rw [hs] at hall hnd
    have hpq : p = q := (hall p List.mem_cons_self).trans
      (hall q (List.mem_cons_of_mem _ List.mem_cons_self)).symm
    exact absurd (hpq ▸ List.mem_cons_self) (List.nodup_cons.mp hnd).1

end Registered

theorem CharacterPress.step {s s' : Readers} {scanCode : UInt8}
    (hc : CharacterPress s.keyboard scanCode) (h : ReaderStep s (.interrupt scanCode) s') :
    s'.keyboard = { s.keyboard with keyboardEventBuffersNum := 0 } ∧
      s'.mems = Function.update s.mems s.active (deliverKeys s.keyboard (s.mems s.active)
        (getKeyCharacter s.keyboard (s.keyboard.keyLookupTable scanCode.toNat).keyCode)
        s.keyboard.keyboardEventBuffersNum) ∧
      s'.waiting = s.waiting ∧ s'.owners = [] := by
  cases h with
  | interrupt hrun =>
    rw [keyboardInterruptHandler_press hc] at hrun
    cases hrun
    exact ⟨rfl, rfl, rfl, List.take_zero (l := s.owners)⟩

/-- The key reaches its readers exactly if no other process waits for it. -/
theorem Registered.served_iff {s s' : Readers} {scanCode : UInt8} (h : Registered s)
    (hc : CharacterPress s.keyboard scanCode) (hs : ReaderStep s (.interrupt scanCode) s') :
    KeyServed s s' (getKeyCharacter s.keyboard
        (s.keyboard.keyLookupTable scanCode.toNat).keyCode) ↔
      ∀ p kerb, Pending s p kerb → p = s.active := by
  obtain ⟨-, hmems, -, -⟩ := hc.step hs
  constructor
  · intro hserved p kerb hp
    by_contra hne
    -- its memory was not written, and the event is not received
    have hmem := hserved.pending p kerb hp
    rw [hmems, Function.update_of_ne hne] at hmem
    have hrec := hp.2
    rw [hmem, kerbEventReceived_deliverKey] at hrec
    exact absurd hrec (by decide)
  · intro ho
    rcases h.owners_of_orderly ho with hown | hown
    · have hno : ∀ p kerb, ¬ Pending s p kerb := fun p kerb hp => by
        have := h.mem_owners.mpr ⟨kerb, hp⟩
        rw [hown] at this
        exact List.not_mem_nil this
      have hsame : s'.mems = s.mems := by
        rw [hmems, h.num, hown]
        exact Function.update_eq_self s.active s.mems
      exact ⟨fun p kerb hp => absurd hp (hno p kerb), fun p _ => by rw [hsame]⟩
    · refine ⟨fun p kerb hp => ?_, fun p hp => ?_⟩
      · obtain rfl := ho p kerb hp
        obtain ⟨i, hi, hk⟩ := (h.pending _ kerb).mp hp
        rw [hown] at hi
        obtain rfl : i = 0 := by
          have := (List.getElem?_eq_some_iff.mp hi).1
          rw [List.length_singleton] at this
          omega
        rw [hmems, h.num, hown, Function.update_self, ← hk]
        rfl
      · have hne : p ≠ s.active := by
          rintro rfl
          obtain ⟨kerb, hpend⟩ := h.mem_owners.mp (show s.active ∈ s.owners by simp [hown])
          exact hp kerb hpend
        rw [hmems, Function.update_of_ne hne]

/-- A read is registered behind those that are pending. -/
theorem Registered.read {s : Readers} {kerb buf size : ℕ} {k : KeyboardState} {m : Mem}
    (h : Registered s) (hfew : FewReaders s) (hwait : s.waiting s.active = none)
    (hrun : devReadKeyboard s.keyboard (s.mems s.active) kerb buf size = .ok (k, m)) :
    Registered ⟨k, Function.update s.mems s.active m, s.active,
      Function.update s.waiting s.active (some kerb), s.owners ++ [s.active]⟩ := by
  obtain ⟨m', hok, -, hrec⟩ := @devReadKeyboard_eq (s.mems s.active) kerb buf size s.keyboard
  have hok' := hok (h.fewReaders_iff.mp hfew)
  rw [hrun] at hok'
  cases hok'
  have hnot : s.active ∉ s.owners := fun hmem => by
    obtain ⟨kerb', hp⟩ := h.mem_owners.mp hmem
    have hw := hp.1
    rw [hwait] at hw
    cases hw
  refine ⟨?_, ?_, fun p kerb' => ?_⟩
  · simp [h.num]
  · rw [List.nodup_append]
    refine ⟨h.nodup, List.nodup_singleton _, fun p hp q hq => ?_⟩
    rw [List.mem_singleton.mp hq]
    rintro rfl
    exact hnot hp
  · by_cases hp : p = s.active
    · subst hp
      have hlast : ∀ i, (s.owners ++ [s.active])[i]? = some s.active ↔ i = s.owners.length := by
        intro i
        constructor
        · intro hi
          by_contra hne
          have hlt : i < s.owners.length := by
            have := (List.getElem?_eq_some_iff.mp hi).1
            rw [List.length_append, List.length_singleton] at this
            omega
          rw [List.getElem?_append_left hlt] at hi
          exact hnot (List.mem_of_getElem? hi)
        · rintro rfl
          simp
      simp only [Pending, Function.update_self, hlast, h.num, Option.some.injEq, exists_eq_left]
      constructor
      · exact fun hp => hp.1
      · rintro rfl
        exact ⟨rfl, hrec⟩
    · have hpend : Pending ⟨{ s.keyboard with
            keyboardEventBuffers := Function.update s.keyboard.keyboardEventBuffers
              s.keyboard.keyboardEventBuffersNum kerb
            keyboardEventBuffersNum := s.keyboard.keyboardEventBuffersNum + 1 },
          Function.update s.mems s.active m, s.active,
          Function.update s.waiting s.active (some kerb), s.owners ++ [s.active]⟩ p kerb' ↔
          Pending s p kerb' := by
        unfold Pending
        dsimp only
        rw [Function.update_of_ne hp, Function.update_of_ne hp]
      rw [hpend, h.pending p kerb']
      refine exists_congr fun i => ?_
      dsimp only
      constructor
      · rintro ⟨hi, hk⟩
        have hlt := (List.getElem?_eq_some_iff.mp hi).1
        refine ⟨by rw [List.getElem?_append_left hlt, hi], ?_⟩
        rw [Function.update_of_ne (by rw [h.num]; omega), hk]
      · rintro ⟨hi, hk⟩
        have hlt : i < s.owners.length := by
          by_contra hge
          rw [List.getElem?_append_right (by omega)] at hi
          have := List.mem_of_getElem? hi
          exact hp (List.mem_singleton.mp this)
        rw [List.getElem?_append_left hlt] at hi
        rw [Function.update_of_ne (by rw [h.num]; omega)] at hk
        exact ⟨hi, hk⟩

/-- A character serves all reads. -/
theorem Registered.character {s s' : Readers} {scanCode : UInt8} (h : Registered s)
    (hc : CharacterPress s.keyboard scanCode) (ho : ∀ p kerb, Pending s p kerb → p = s.active)
    (hs : ReaderStep s (.interrupt scanCode) s') : Registered s' := by
  have hserved := (h.served_iff hc hs).mpr ho
  obtain ⟨hk, -, hw, hown⟩ := hc.step hs
  refine ⟨by rw [hk, hown]; rfl, by rw [hown]; exact List.nodup_nil, fun p kerb => ?_⟩
  rw [hown]
  refine ⟨fun hp => ?_, fun ⟨i, hi, _⟩ => by simp at hi⟩
  -- a read that was pending is served, and no other has become pending
  exfalso
  by_cases hpend : Pending s p kerb
  · have hrec := hp.2
    rw [hserved.pending p kerb hpend, kerbEventReceived_deliverKey] at hrec
    exact absurd hrec (by decide)
  · have hwait : s.waiting p = some kerb := hw ▸ hp.1
    refine hpend ⟨hwait, ?_⟩
    have hno : ∀ kerb', ¬ Pending s p kerb' := fun kerb' hp' => by
      rw [hp'.1] at hwait
      cases hwait
      exact hpend hp'
    rw [← hserved.others p hno]
    exact hp.2

/-- An orderly step keeps the registrations in line with the pending reads. -/
theorem Registered.step {s s' : Readers} {e : ReaderEvent} (h : Registered s) (ho : Orderly s e)
    (hs : ReaderStep s e s') : Registered s' := by
  have hs' := hs
  cases hs with
  | read hwait _ hrun => exact h.read ho hwait hrun
  | @interrupt scanCode k m hrun =>
    by_cases hc : CharacterPress s.keyboard scanCode
    · exact h.character hc (ho hc) hs'
    · obtain ⟨shift, hother⟩ := keyboardInterruptHandler_other (m := s.mems s.active) hc
      rw [hrun] at hother
      cases hother
      have htake : s.owners.take s.keyboard.keyboardEventBuffersNum = s.owners := by
        rw [h.num, List.take_length]
      refine ⟨by rw [htake]; exact h.num, by rw [htake]; exact h.nodup, fun p kerb => ?_⟩
      rw [htake]
      unfold Pending
      rw [Function.update_eq_self]
      exact h.pending p kerb
  | switch => exact ⟨h.num, h.nodup, h.pending⟩
  | @resume kerb hwait hrec =>
    refine ⟨h.num, h.nodup, fun p kerb' => ?_⟩
    rw [← h.pending p kerb']
    unfold Pending
    dsimp only
    by_cases hp : p = s.active
    · subst hp
      rw [Function.update_self, hwait]
      refine ⟨fun hn => by simp at hn, fun hn => ?_⟩
      cases hn.1
      exact absurd hn.2 hrec
    · rw [Function.update_of_ne hp]
  | @write m hkeep =>
    refine ⟨h.num, h.nodup, fun p kerb => ?_⟩
    rw [← h.pending p kerb]
    unfold Pending
    dsimp only
    refine and_congr_right fun hwait => ?_
    by_cases hp : p = s.active
    · subst hp
      rw [Function.update_self, kerbEventReceived_congr (hkeep kerb hwait)]
    · rw [Function.update_of_ne hp]

/-! ## Runs -/

theorem OrderlyRun.registered {s : Readers} (h : OrderlyRun s) : Registered s := by
  induction h with
  | init mems active =>
    refine ⟨rfl, List.nodup_nil, fun p kerb => ⟨fun hp => ?_, fun ⟨i, hi, _⟩ => by simp at hi⟩⟩
    cases hp.1
  | step _ ho hs ih => exact ih.step ho hs

/-- In a run of orderly steps every pending read stays registered, and in each of its states a key
reaches its readers, and only them, exactly if no process but the active one waits; and the next
registration is inside the array exactly if fewer than `keyboardEventBuffersMax` processes wait. -/
theorem orderlyRun_keyboard {s : Readers} (h : OrderlyRun s) :
    KeyKept s ∧
    (∀ scanCode s', CharacterPress s.keyboard scanCode → ReaderStep s (.interrupt scanCode) s' →
      (KeyServed s s' (getKeyCharacter s.keyboard
          (s.keyboard.keyLookupTable scanCode.toNat).keyCode) ↔
        ∀ p kerb, Pending s p kerb → p = s.active)) ∧
    ∀ kerb buf size, (∃ r, devReadKeyboard s.keyboard (s.mems s.active) kerb buf size = .ok r) ↔
      FewReaders s := by
  have hr := h.registered
  refine ⟨hr.kept, fun _ _ hc hs => hr.served_iff hc hs, fun kerb buf size => ?_⟩
  obtain ⟨m', hok, herr, -⟩ := @devReadKeyboard_eq (s.mems s.active) kerb buf size s.keyboard
  rw [hr.fewReaders_iff]
  constructor
  · rintro ⟨r, hrun⟩
    by_contra hge
    exact herr (Nat.not_lt.mp hge) r hrun
  · exact fun hlt => ⟨_, hok hlt⟩

/-! ## A read and a press -/

/-- Process 1 runs, and nobody reads. -/
def idleReaders : Readers := ⟨keyboardInit, fun _ _ => 0, 1, fun _ => none, []⟩

theorem idleReaders_run : OrderlyRun idleReaders := .init _ _

theorem characterPress_a {k : KeyboardState} (h : k.keyLookupTable = keyboardInit.keyLookupTable) :
    CharacterPress k 0x1E := by
  unfold CharacterPress
  rw [h]
  decide

/-- Process 1 waits for a key. -/
theorem exists_reading : ∃ s, OrderlyRun s ∧ ReaderStep idleReaders (.read 0xEFFFF000 0x40001000 1) s ∧
    CharacterPress s.keyboard 0x1E ∧ s.active = 1 ∧ Pending s 1 0xEFFFF000 := by
  obtain ⟨m, hok, -, hrec⟩ := @devReadKeyboard_eq (fun _ => 0) 0xEFFFF000
    0x40001000 1 keyboardInit
  have hstep : ReaderStep idleReaders (.read 0xEFFFF000 0x40001000 1) _ :=
    .read rfl (by decide) (hok (show 0 < 64 by decide))
  refine ⟨_, .step idleReaders_run ?_ hstep, hstep, characterPress_a rfl, rfl, ?_, ?_⟩
  · exact idleReaders_run.registered.fewReaders_iff.mpr (show 0 < 64 by decide)
  · dsimp only [idleReaders]
    rw [Function.update_self]
  · dsimp only [idleReaders]
    rw [Function.update_self]
    exact hrec

/-- The key comes while process 2 runs: process 1 does not get it, and is not registered any
more. -/
theorem not_keyServed_switched : ∃ s₁ s₂ s₃,
    ReaderStep idleReaders (.read 0xEFFFF000 0x40001000 1) s₁ ∧ ReaderStep s₁ (.switch 2) s₂ ∧
    CharacterPress s₂.keyboard 0x1E ∧ ReaderStep s₂ (.interrupt 0x1E) s₃ ∧
    ¬ KeyServed s₂ s₃ (getKeyCharacter s₂.keyboard (s₂.keyboard.keyLookupTable 0x1E).keyCode) ∧
    ¬ KeyKept s₃ := by
  obtain ⟨s₁, hrun, hread, hpress, -, hp⟩ := exists_reading
  have hswitch : ReaderStep s₁ (.switch 2) { s₁ with active := 2 } := .switch
  have hreg := (OrderlyRun.step hrun (show Orderly s₁ (.switch 2) from trivial) hswitch).registered
  have hint : ReaderStep { s₁ with active := 2 } (.interrupt 0x1E) _ := .interrupt rfl
  obtain ⟨hk, hmems, hwait, hown⟩ := hpress.step (s := { s₁ with active := 2 }) hint
  refine ⟨s₁, _, _, hread, hswitch, hpress, hint, fun hserved => ?_, fun hkept => ?_⟩
  · exact absurd ((hreg.served_iff hpress hint).mp hserved 1 _ hp) (show 1 ≠ 2 by decide)
  · obtain ⟨i, hi, -⟩ := hkept 1 0xEFFFF000 ⟨by rw [hwait]; exact hp.1, by
      rw [hmems, Function.update_of_ne (show 1 ≠ 2 by decide)]
      exact hp.2⟩
    rw [hk] at hi
    exact absurd hi (Nat.not_lt_zero i)

/-- The key comes while process 1 runs. -/
theorem keyServed_reading : ∃ s s', OrderlyRun s ∧ Pending s 1 0xEFFFF000 ∧
    ReaderStep s (.interrupt 0x1E) s' ∧
    KeyServed s s' (getKeyCharacter s.keyboard (s.keyboard.keyLookupTable 0x1E).keyCode) := by
  obtain ⟨s, hrun, hread, hpress, hactive, hp⟩ := exists_reading
  have hint : ReaderStep s (.interrupt 0x1E) _ := .interrupt rfl
  refine ⟨s, _, hrun, hp, hint, ((orderlyRun_keyboard hrun).2.1 0x1E _ hpress hint).mpr ?_⟩
  intro p kerb hpend
  by_contra hne
  rw [hactive] at hne
  -- only process 1 has made a registration
  cases hread with
  | read _ _ _ =>
    have hw := hpend.1
    dsimp only [idleReaders] at hw
    rw [Function.update_of_ne hne] at hw
    cases hw

end RawOS
