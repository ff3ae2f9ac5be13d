/-
  O2Fabric.Libp2p.CertificateRenewal

  Keeping a held certificate renewed: one timer for the moment renewal is due,
  and one attempt when it fires, which arms the next timer however it ends.

  The loop neither dies nor spins, in any order of timers, answers and `stop`.
-/

import Mathlib.Data.Rat.Floor
import O2Fabric.Core.Certificate
import O2Fabric.Lib.Steps

namespace O2Fabric.CertificateRenewal

open Steps

/-! ## When renewal is due -/

def CERTIFICATE_RENEW_AT : ℚ := 2 / 3

def RENEWAL_RETRY_FLOOR_MS : ℚ := 300000

/-- The largest delay that `setTimeout` honours. -/
def MAX_TIMER_MS : ℚ := 2 ^ 31 - 1

def renewalDelayMs (wanted : ℚ) : ℚ := min wanted MAX_TIMER_MS

/-- When two-thirds of the certificate's life are over. -/
def dueAt (certificate : NodeCertificate) : ℚ :=
  certificate.issuedAt + (certificate.expiresAt - certificate.issuedAt) * CERTIFICATE_RENEW_AT

def shouldRenewCertificate (certificate : NodeCertificate) (now : ℚ) : Bool :=
  if certificate.expiresAt - certificate.issuedAt ≤ 0 then true
  else decide (dueAt certificate ≤ now)

def msUntilRenewalDue (certificate : NodeCertificate) (now floorMs : ℚ) : ℚ :=
  if certificate.expiresAt - certificate.issuedAt ≤ 0 then floorMs
  else max floorMs ⌈dueAt certificate - now⌉

/-- `CertificateHolder.replace`: what is held afterwards, and whether it was written. -/
def replace (current : Option NodeCertificate) (certificate : NodeCertificate) :
    Option NodeCertificate × Bool :=
  match current with
  | some held =>
    if certificate.issuedAt ≤ held.issuedAt then (current, false) else (some certificate, true)
  | none => (some certificate, true)

/-! ## The loop -/

/-- A timer that was armed and has not fired. -/
structure Timer where
  id : Nat
  /-- The delay asked for, before it is clamped. -/
  wanted : ℚ
  delayMs : ℚ
  armedAt : ℚ
  deriving DecidableEq

/-- Where an attempt that runs has got to. -/
inductive Attempt
  /-- `renew` is awaited. -/
  | renewing
  /-- `renewed` is awaited. -/
  | republishing
  deriving DecidableEq

structure Loop where
  floorMs : ℚ
  /-- The last reading of the clock. -/
  clock : ℚ
  holder : Option NodeCertificate
  /-- The timers that are pending, and the one the loop knows of. -/
  pending : List Timer := []
  timer : Option Nat := none
  armed : Nat := 0
  attempts : List Attempt := []
  stopped : Bool := false
  deriving DecidableEq

/-- `arm`, at a reading of the clock. -/
def arm (loop : Loop) (delayMs now : ℚ) : Loop :=
  if loop.stopped then loop
  else { loop with
    pending := loop.pending ++ [⟨loop.armed, delayMs, renewalDelayMs delayMs, now⟩]
    timer := some loop.armed
    armed := loop.armed + 1 }

/-- `startCertificateRenewal`, with a certificate held or none. -/
def startCertificateRenewal (holder : Option NodeCertificate) (floorMs now : ℚ) : Loop :=
  let loop : Loop := { floorMs, clock := now, holder }
  match holder with
  | some initial => arm loop (msUntilRenewalDue initial now floorMs) now
  | none => loop

/-- The first part of `attempt`, up to where it awaits; it reads the clock once or twice. -/
def attempt (loop : Loop) (first second : ℚ) : Loop :=
  if loop.stopped then loop
  else
    match loop.holder with
    | none => loop
    | some held =>
      if shouldRenewCertificate held first = false then
        arm loop (msUntilRenewalDue held second loop.floorMs) second
      else { loop with attempts := loop.attempts ++ [.renewing] }

/-- What follows `renew`, `none` where it answered `null` or was rejected. -/
def answered (loop : Loop) (obtained : Option NodeCertificate) (now : ℚ) : Loop :=
  if loop.stopped then loop
  else
    match obtained with
    | none => arm loop loop.floorMs now
    | some certificate =>
      if (replace loop.holder certificate).2 then
        { loop with
          holder := (replace loop.holder certificate).1
          attempts := loop.attempts ++ [.republishing] }
      else arm loop loop.floorMs now

/-- What follows `renewed`, however it settled. -/
def republished (loop : Loop) (now : ℚ) : Loop :=
  match loop.holder with
  | none => arm loop loop.floorMs now
  | some current => arm loop (msUntilRenewalDue current now loop.floorMs) now

def stop (loop : Loop) : Loop :=
  { loop with
    stopped := true
    pending := loop.pending.filter fun timer => decide (loop.timer ≠ some timer.id)
    timer := none }

inductive Event
  | fires (id : Nat) (first second : ℚ)
  | answers (index : Nat) (obtained : Option NodeCertificate) (now : ℚ)
  | republishes (index : Nat) (now : ℚ)
  | stops

/-- What can happen; the clock does not go back. -/
def step (loop : Loop) : Event → Option Loop
  | .fires id first second =>
    if loop.pending.any (fun timer => timer.id == id) ∧ loop.clock ≤ first ∧ first ≤ second then
      some (attempt { loop with
        clock := second
        pending := loop.pending.filter fun timer => timer.id != id } first second)
    else none
  | .answers index obtained now =>
    match loop.attempts[index]? with
    | some .renewing =>
      if loop.clock ≤ now then
        some (answered { loop with
          clock := now
          attempts := loop.attempts.eraseIdx index } obtained now)
      else none
    | _ => none
  | .republishes index now =>
    match loop.attempts[index]? with
    | some .republishing =>
      if loop.clock ≤ now then
        some (republished { loop with
          clock := now
          attempts := loop.attempts.eraseIdx index } now)
      else none
    | _ => none
  | .stops => some (stop loop)

/-! ## Due times -/

variable {loop loop' : Loop} {certificate : NodeCertificate}

variable {now : ℚ}

/-- What is due stays due. -/
theorem shouldRenew_mono {later : ℚ} (h : shouldRenewCertificate certificate now = true)
    (hle : now ≤ later) : shouldRenewCertificate certificate later = true := by
  unfold shouldRenewCertificate at h ⊢
  split at h
  · next hspan => rw [if_pos hspan]
  · next hspan =>
    rw [if_neg hspan]
    exact decide_eq_true ((of_decide_eq_true h).trans hle)

/-- After the time asked for the certificate is due. -/
theorem shouldRenew_of_waited {floorMs later : ℚ}
    (h : now + msUntilRenewalDue certificate now floorMs ≤ later) :
    shouldRenewCertificate certificate later = true := by
  unfold msUntilRenewalDue at h
  unfold shouldRenewCertificate
  split at h
  · next hspan => rw [if_pos hspan]
  · next hspan =>
    rw [if_neg hspan]
    have hceil : dueAt certificate - now ≤ ⌈dueAt certificate - now⌉ := Int.le_ceil _
    have hmax := le_max_right floorMs (⌈dueAt certificate - now⌉ : ℚ)
    exact decide_eq_true (by linarith)

theorem floor_le_msUntilRenewalDue (now floorMs : ℚ) :
    floorMs ≤ msUntilRenewalDue certificate now floorMs := by
  unfold msUntilRenewalDue
  split
  · exact le_refl floorMs
  · exact le_max_left _ _

/-- A replacement is newer than what it replaces. -/
theorem issuedAt_lt_of_replace {held : NodeCertificate}
    (h : (replace (some held) certificate).2 = true) :
    held.issuedAt < certificate.issuedAt ∧
      (replace (some held) certificate).1 = some certificate := by
  unfold replace at h ⊢
  dsimp only at h ⊢
  split at h
  · cases h
  · next hnewer =>
    rw [if_neg hnewer]
    exact ⟨not_le.mp hnewer, rfl⟩

/-! ## What holds of the loop -/

/-- What holds of the loop whatever has happened. -/
structure Sound (loop : Loop) : Prop where
  alive : loop.stopped = false → loop.pending.length + loop.attempts.length = 1
  quiet : loop.stopped = true → loop.pending = []
  /-- The loop knows of the timer that is pending, and so can clear it. -/
  known : ∀ timer ∈ loop.pending, loop.timer = some timer.id
  holds : ∃ held, loop.holder = some held
  delays : ∀ timer ∈ loop.pending,
    timer.delayMs = renewalDelayMs timer.wanted ∧ loop.floorMs ≤ timer.wanted
  due : ∀ timer ∈ loop.pending, ∀ held, loop.holder = some held → ∀ now, loop.clock ≤ now →
    timer.armedAt + timer.wanted ≤ now → shouldRenewCertificate held now = true
  /-- An exchange is only run for what is due. -/
  tried : .renewing ∈ loop.attempts → ∀ held, loop.holder = some held →
    shouldRenewCertificate held loop.clock = true

/-- Where nothing is pending and nothing runs, arming is what keeps the loop alive. -/
theorem sound_arm {wanted : ℚ} (hpending : loop.pending = []) (hattempts : loop.attempts = [])
    (hholds : ∃ held, loop.holder = some held) (hfloor : loop.floorMs ≤ wanted)
    (hdue : ∀ held, loop.holder = some held → ∀ now, loop.clock ≤ now →
      loop.clock + wanted ≤ now → shouldRenewCertificate held now = true) :
    Sound (arm loop wanted loop.clock) := by
  unfold arm
  split
  · next hstopped =>
    exact ⟨fun h => by simp [hstopped] at h, fun _ => hpending, by simp [hpending], hholds,
      by simp [hpending], by simp [hpending], by simp [hattempts]⟩
  · next hrunning =>
    refine ⟨fun _ => by simp [hpending, hattempts], fun h => absurd h hrunning, ?_, hholds, ?_,
      ?_, by simp [hattempts]⟩
    all_goals
      rw [hpending, List.nil_append]
      intro timer htimer
      rw [List.mem_singleton] at htimer
      subst htimer
    · rfl
    · exact ⟨rfl, hfloor⟩
    · exact hdue

theorem sound_arm_due {held : NodeCertificate} (hpending : loop.pending = [])
    (hattempts : loop.attempts = []) (hheld : loop.holder = some held) :
    Sound (arm loop (msUntilRenewalDue held loop.clock loop.floorMs) loop.clock) := by
  refine sound_arm hpending hattempts ⟨held, hheld⟩ (floor_le_msUntilRenewalDue _ _) ?_
  intro held' hheld' now _ hwaited
  rw [hheld] at hheld'
  cases hheld'
  exact shouldRenew_of_waited hwaited

/-- After an attempt that brought nothing the certificate is still due. -/
theorem sound_arm_floor (hpending : loop.pending = []) (hattempts : loop.attempts = [])
    (hholds : ∃ held, loop.holder = some held)
    (htried : ∀ held, loop.holder = some held → shouldRenewCertificate held loop.clock = true) :
    Sound (arm loop loop.floorMs loop.clock) :=
  sound_arm hpending hattempts hholds (le_refl _) fun held hheld _ hlater _ =>
    shouldRenew_mono (htried held hheld) hlater

theorem sound_start (initial : NodeCertificate) (floorMs now : ℚ) :
    Sound (startCertificateRenewal (some initial) floorMs now) :=
  sound_arm_due rfl rfl rfl

/-- While the loop runs, a pending timer is the only one and no attempt runs. -/
theorem Sound.pending_eq (h : Sound loop) {timer : Timer} (hmem : timer ∈ loop.pending) :
    loop.stopped = false ∧ loop.pending = [timer] ∧ loop.attempts = [] := by
  have hrunning : loop.stopped = false := by
    by_contra hstopped
    rw [h.quiet (by simpa using hstopped)] at hmem
    cases hmem
  have hone := h.alive hrunning
  have hpos := List.length_pos_of_mem hmem
  refine ⟨hrunning, ?_, List.length_eq_zero_iff.mp (by omega)⟩
  obtain ⟨only, honly⟩ := List.length_eq_one_iff.mp (show loop.pending.length = 1 by omega)
  rw [honly, List.mem_singleton] at hmem
  rw [honly, hmem]

variable {index : Nat}

/-- While the loop runs, an attempt that runs is the only one and no timer is pending. -/
theorem Sound.attempts_eq (h : Sound loop) {attempt : Attempt}
    (hget : loop.attempts[index]? = some attempt) (hrunning : loop.stopped = false) :
    loop.pending = [] ∧ loop.attempts.eraseIdx index = [] := by
  obtain ⟨hlt, -⟩ := List.getElem?_eq_some_iff.mp hget
  have hone := h.alive hrunning
  refine ⟨List.length_eq_zero_iff.mp (by omega), List.length_eq_zero_iff.mp ?_⟩
  rw [List.length_eraseIdx_of_lt hlt]
  omega

/-! ## What a step can do -/

variable {e : Event}

/-- Everything a step can do. -/
theorem step_cases (h : step loop e = some loop') :
    (∃ id first second, e = .fires id first second ∧ (∃ timer ∈ loop.pending, timer.id = id) ∧
      loop.clock ≤ first ∧ first ≤ second ∧
      loop' = attempt { loop with
        clock := second
        pending := loop.pending.filter fun timer => timer.id != id } first second) ∨
    (∃ index obtained now, e = .answers index obtained now ∧
      loop.attempts[index]? = some .renewing ∧ loop.clock ≤ now ∧
      loop' = answered { loop with
        clock := now
        attempts := loop.attempts.eraseIdx index } obtained now) ∨
    (∃ index now, e = .republishes index now ∧
      loop.attempts[index]? = some .republishing ∧ loop.clock ≤ now ∧
      loop' = republished { loop with
        clock := now
        attempts := loop.attempts.eraseIdx index } now) ∨
    (e = .stops ∧ loop' = stop loop) := by
  cases e with
  | fires id first second =>
    simp only [step, Option.ite_none_right_eq_some, List.any_eq_true, beq_iff_eq,
      Option.some.injEq] at h
    obtain ⟨⟨hmem, hfirst, hsecond⟩, rfl⟩ := h
    exact .inl ⟨id, first, second, rfl, hmem, hfirst, hsecond, rfl⟩
  | answers index obtained now =>
    simp only [step] at h
    split at h
    · next hget =>
      simp only [Option.ite_none_right_eq_some, Option.some.injEq] at h
      exact .inr (.inl ⟨index, obtained, now, rfl, hget, h.1, h.2.symm⟩)
    · cases h
  | republishes index now =>
    simp only [step] at h
    split at h
    · next hget =>
      simp only [Option.ite_none_right_eq_some, Option.some.injEq] at h
      exact .inr (.inr (.inl ⟨index, now, rfl, hget, h.1, h.2.symm⟩))
    · cases h
  | stops => exact .inr (.inr (.inr ⟨rfl, by simpa [step] using h.symm⟩))

theorem sound_fires {id : Nat} {first second : ℚ} (h : Sound loop)
    (hmem : ∃ timer ∈ loop.pending, timer.id = id) (hsecond : first ≤ second) :
    Sound (attempt { loop with
      clock := second
      pending := loop.pending.filter fun timer => timer.id != id } first second) := by
  obtain ⟨timer, hpending, rfl⟩ := hmem
  obtain ⟨hrunning, honly, hattempts⟩ := h.pending_eq hpending
  obtain ⟨held, hheld⟩ := h.holds
  have hnone : loop.pending.filter (fun other => other.id != timer.id) = [] := by
    rw [honly]
    simp
  simp only [attempt, hrunning, hheld, hnone, Bool.false_eq_true, if_false]
  split
  · exact sound_arm_due rfl hattempts rfl
  · next hdue =>
    refine ⟨fun _ => by simp [hattempts], fun hstopped => ?_, by simp, ⟨held, rfl⟩, by simp,
      by simp, ?_⟩
    · cases hstopped
    · intro _ held' hheld'
      dsimp only at hheld' ⊢
      cases hheld'
      exact shouldRenew_mono (by simpa using hdue) hsecond

theorem sound_answers {obtained : Option NodeCertificate} (h : Sound loop)
    (hget : loop.attempts[index]? = some .renewing) (hclock : loop.clock ≤ now) :
    Sound (answered { loop with
      clock := now
      attempts := loop.attempts.eraseIdx index } obtained now) := by
  unfold answered
  split
  · next hstopped =>
    refine ⟨fun hrunning => ?_, h.quiet, h.known, h.holds, h.delays, ?_, ?_⟩
    · rw [hstopped] at hrunning
      cases hrunning
    · exact fun timer htimer held hheld later hlater =>
        h.due timer htimer held hheld later (hclock.trans hlater)
    · exact fun hmem held hheld =>
        shouldRenew_mono (h.tried (List.mem_of_mem_eraseIdx hmem) held hheld) hclock
  · next hrunning =>
    obtain ⟨hpending, hattempts⟩ := h.attempts_eq hget (by simpa using hrunning)
    have htried : ∀ held, loop.holder = some held → shouldRenewCertificate held now = true :=
      fun held hheld =>
        shouldRenew_mono (h.tried (List.mem_of_getElem? hget) held hheld) hclock
    have hfloor : Sound (arm { loop with
        clock := now
        attempts := loop.attempts.eraseIdx index } loop.floorMs now) :=
      sound_arm_floor hpending hattempts h.holds htried
    split
    · exact hfloor
    · next certificate =>
      split
      · next hwritten =>
        obtain ⟨held, hheld⟩ := h.holds
        dsimp only at hwritten ⊢
        rw [hheld] at hwritten ⊢
        have hnew := (issuedAt_lt_of_replace hwritten).2
        rw [hattempts]
        refine ⟨fun _ => by simp [hpending], fun hstopped => absurd hstopped hrunning,
          ?_, ⟨certificate, hnew⟩, ?_, ?_, by simp⟩
        all_goals simp [hpending]
      · exact hfloor

theorem sound_republishes (h : Sound loop) (hget : loop.attempts[index]? = some .republishing)
    (hclock : loop.clock ≤ now) :
    Sound (republished { loop with
      clock := now
      attempts := loop.attempts.eraseIdx index } now) := by
  obtain ⟨held, hheld⟩ := h.holds
  simp only [republished, hheld]
  by_cases hstopped : loop.stopped = true
  · simp only [arm, hstopped, if_true]
    refine ⟨fun hrunning => (by cases hrunning), fun _ => h.quiet hstopped, h.known, ⟨held, rfl⟩,
      h.delays, ?_, ?_⟩
    · intro timer htimer held' hheld' later hlater
      cases hheld'
      exact h.due timer htimer held hheld later (hclock.trans hlater)
    · intro hmem held' hheld'
      cases hheld'
      exact shouldRenew_mono (h.tried (List.mem_of_mem_eraseIdx hmem) held hheld) hclock
  · obtain ⟨hpending, hattempts⟩ := h.attempts_eq hget (by simpa using hstopped)
    exact sound_arm_due hpending hattempts rfl

theorem sound_stop (h : Sound loop) : Sound (stop loop) := by
  have hcleared : (loop.pending.filter fun timer => decide (loop.timer ≠ some timer.id)) = [] := by
    rw [List.filter_eq_nil_iff]
    intro timer htimer
    simp [h.known timer htimer]
  unfold stop
  rw [hcleared]
  exact ⟨fun hrunning => (by cases hrunning), fun _ => rfl, by simp, h.holds, by simp, by simp,
    h.tried⟩

theorem sound_step (h : Sound loop) (hstep : step loop e = some loop') :
    Sound loop' := by
  obtain ⟨_, _, _, -, hmem, -, hsecond, rfl⟩ | ⟨_, _, _, -, hget, hclock, rfl⟩ |
    ⟨_, _, -, hget, hclock, rfl⟩ | ⟨-, rfl⟩ := step_cases hstep
  · exact sound_fires h hmem hsecond
  · exact sound_answers h hget hclock
  · exact sound_republishes h hget hclock
  · exact sound_stop h

/-- The floor is what the loop was started with. -/
theorem floorMs_step (hstep : step loop e = some loop') :
    loop'.floorMs = loop.floorMs := by
  have harm : ∀ (other : Loop) (wanted now : ℚ),
      (arm other wanted now).floorMs = other.floorMs := by
    intro other wanted now
    unfold arm
    split <;> rfl
  obtain ⟨id, first, second, -, -, -, -, rfl⟩ | ⟨index, obtained, now, -, -, -, rfl⟩ |
    ⟨index, now, -, -, -, rfl⟩ | ⟨-, rfl⟩ := step_cases hstep
  · unfold attempt
    split_ifs
    · rfl
    · split
      · rfl
      · split_ifs
        · exact harm _ _ _
        · rfl
  · unfold answered
    split_ifs
    · rfl
    · split
      · exact harm _ _ _
      · split_ifs
        · rfl
        · exact harm _ _ _
  · unfold republished
    split
    · exact harm _ _ _
    · exact harm _ _ _
  · rfl

/-! ## What a step does to the held certificate -/

@[simp] theorem holder_arm (wanted now : ℚ) : (arm loop wanted now).holder = loop.holder := by
  unfold arm
  split <;> rfl

/-- What is held changes only to a certificate issued later. -/
theorem holder_step (hstep : step loop e = some loop') :
    loop'.holder = loop.holder ∨
      ∃ certificate, loop'.holder = some certificate ∧ loop.stopped = false ∧
        ∀ held, loop.holder = some held → held.issuedAt < certificate.issuedAt := by
  obtain ⟨id, first, second, -, -, -, -, rfl⟩ | ⟨index, obtained, now, -, -, -, rfl⟩ |
    ⟨index, now, -, -, -, rfl⟩ | ⟨-, rfl⟩ := step_cases hstep
  · left
    unfold attempt
    split_ifs
    · rfl
    · split
      · rfl
      · split_ifs
        · exact holder_arm _ _
        · rfl
  · unfold answered
    split_ifs with hstopped
    · exact .inl rfl
    · split
      · exact .inl (holder_arm _ _)
      · next certificate =>
        split_ifs with hwritten
        · right
          refine ⟨certificate, ?_, by simpa using hstopped, ?_⟩
          · dsimp only at hwritten ⊢
            cases hheld : loop.holder with
            | none => rfl
            | some held =>
              rw [hheld] at hwritten
              exact (issuedAt_lt_of_replace hwritten).2
          · intro held hheld
            dsimp only at hwritten
            rw [hheld] at hwritten
            exact (issuedAt_lt_of_replace hwritten).1
        · exact .inl (holder_arm _ _)
  · left
    unfold republished
    split
    · exact holder_arm _ _
    · exact holder_arm _ _
  · exact .inl rfl

theorem arm_of_stopped {wanted : ℚ} (hstopped : loop.stopped = true) :
    arm loop wanted now = loop := if_pos hstopped

/-- After `stop` what still runs comes to its end, and nothing else happens. -/
theorem step_of_stopped (hstopped : loop.stopped = true) (hstep : step loop e = some loop') :
    loop'.stopped = true ∧ loop'.armed = loop.armed ∧ loop'.holder = loop.holder ∧
      loop'.attempts.Sublist loop.attempts ∧ loop'.pending.Sublist loop.pending := by
  obtain ⟨id, first, second, -, -, -, -, rfl⟩ | ⟨index, obtained, now, -, -, -, rfl⟩ |
    ⟨index, now, -, -, -, rfl⟩ | ⟨-, rfl⟩ := step_cases hstep
  · unfold attempt
    rw [if_pos hstopped]
    exact ⟨hstopped, rfl, rfl, List.Sublist.refl _, List.filter_sublist⟩
  · unfold answered
    rw [if_pos hstopped]
    exact ⟨hstopped, rfl, rfl, List.eraseIdx_sublist _ _, List.Sublist.refl _⟩
  · unfold republished
    -- Both branches arm, which does nothing any more.
    split
    all_goals
      rw [arm_of_stopped (by exact hstopped)]
      exact ⟨hstopped, rfl, rfl, List.eraseIdx_sublist _ _, List.Sublist.refl _⟩
  · exact ⟨rfl, rfl, rfl, List.Sublist.refl _, List.filter_sublist⟩

/-! ## Whole runs -/

/-- The state reached is sound, with the floor the loop was started with. -/
theorem sound_of_reaches {initial : NodeCertificate} {floorMs : ℚ}
    (h : Reaches step anything (startCertificateRenewal (some initial) floorMs now) loop) :
    Sound loop ∧ loop.floorMs = floorMs := by
  refine h.invariant (I := fun s => Sound s ∧ s.floorMs = floorMs)
    ⟨sound_start initial floorMs now, ?_⟩ ?_
  · unfold startCertificateRenewal arm
    rfl
  · rintro s e s' - ⟨hsound, hfloor⟩ hstep
    exact ⟨sound_step hsound hstep, (floorMs_step hstep).trans hfloor⟩

/-- The loop neither dies nor spins: until `stop` exactly one timer is pending or
    one attempt runs, no timer is shorter than the floor, one that was not
    clamped finds the certificate due, replacements are newer, and after `stop`
    nothing starts. -/
theorem renewal_neither_dies_nor_spins (initial : NodeCertificate) (floorMs now : ℚ) (loop : Loop)
    (h : Reaches step anything (startCertificateRenewal (some initial) floorMs now) loop) :
    (loop.stopped = false → loop.pending.length + loop.attempts.length = 1) ∧
    (∀ timer ∈ loop.pending,
      min floorMs MAX_TIMER_MS ≤ timer.delayMs ∧ timer.delayMs ≤ MAX_TIMER_MS ∧
      (timer.wanted ≤ MAX_TIMER_MS → ∃ held, loop.holder = some held ∧
        ∀ fired, loop.clock ≤ fired → timer.armedAt + timer.delayMs ≤ fired →
          shouldRenewCertificate held fired = true)) ∧
    (∀ e loop', step loop e = some loop' → loop'.holder ≠ loop.holder →
      ∃ held certificate, loop.holder = some held ∧ loop'.holder = some certificate ∧
        held.issuedAt < certificate.issuedAt) ∧
    (loop.stopped = true → loop.pending = [] ∧
      ∀ e loop', step loop e = some loop' →
        loop'.stopped = true ∧ loop'.pending = [] ∧ loop'.armed = loop.armed ∧
        loop'.holder = loop.holder ∧ loop'.attempts.Sublist loop.attempts) := by
  obtain ⟨hsound, hfloor⟩ := sound_of_reaches h
  obtain ⟨held, hheld⟩ := hsound.holds
  refine ⟨hsound.alive, ?_, ?_, ?_⟩
  · intro timer hmem
    obtain ⟨hdelay, hwanted⟩ := hsound.delays timer hmem
    rw [hfloor] at hwanted
    refine ⟨?_, ?_, ?_⟩
    · rw [hdelay]
      exact min_le_min_right _ hwanted
    · rw [hdelay]
      exact min_le_right _ _
    · intro hunclamped
      refine ⟨held, hheld, fun fired hlater hwaited => ?_⟩
      rw [hdelay, renewalDelayMs, min_eq_left hunclamped] at hwaited
      exact hsound.due timer hmem held hheld fired hlater hwaited
  · intro e loop' hstep hchanged
    obtain hsame | ⟨certificate, hcertificate, -, hnewer⟩ := holder_step hstep
    · exact absurd hsame hchanged
    · exact ⟨held, certificate, hheld, hcertificate, hnewer held hheld⟩
  · intro hstopped
    refine ⟨hsound.quiet hstopped, fun e loop' hstep => ?_⟩
    obtain ⟨hstays, harmed, hholder, hattempts, -⟩ := step_of_stopped hstopped hstep
    exact ⟨hstays, (sound_step hsound hstep).quiet hstays, harmed, hholder, hattempts⟩

/-! A certificate of three milliseconds, replaced when two of them are over. -/

def certificateFrom (issuedAt : ℚ) : NodeCertificate where
  nodeKey := []
  userKey := []
  operatorId := []
  discoverability := .seed
  relayIds := []
  issuedAt
  expiresAt := issuedAt + 3
  issuer := []
  signature := []

def afterOneReplacement : Loop where
  floorMs := 1
  clock := 3
  holder := some (certificateFrom 2)
  pending := [⟨1, max 1 ⌈dueAt (certificateFrom 2) - 3⌉, 1, 3⟩]
  timer := some 1
  armed := 2

theorem afterOneReplacement_reached :
    Reaches step anything (startCertificateRenewal (some (certificateFrom 0)) 1 0)
      afterOneReplacement := by
  have hrun : run step (startCertificateRenewal (some (certificateFrom 0)) 1 0)
      [.fires 0 2 2, .answers 0 (some (certificateFrom 2)) 2, .republishes 0 3] =
        some afterOneReplacement := by decide +kernel
  exact Reaches.of_run (fun _ _ _ => trivial) hrun

theorem renewal_neither_dies_nor_spins_once :
    afterOneReplacement.pending.length + afterOneReplacement.attempts.length = 1 :=
  (renewal_neither_dies_nor_spins (certificateFrom 0) 1 0 afterOneReplacement
    afterOneReplacement_reached).1 rfl

end O2Fabric.CertificateRenewal
