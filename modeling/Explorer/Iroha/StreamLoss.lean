import Explorer.Iroha.StreamServer

/-!
# A block committed too late is lost for good

The condition of `StreamServer.streamBlocks_complete` is exact: a run with a
single commit that is not on time never passes that block to `onBlock`,
however it goes on.

* `unsubscribed_inductive`: until the subscription takes effect only the
  awaited height has been answered null, and it is not asked for again.
* `lost_step`: once the awaited block is committed and neither call will hand
  it over, no step changes that.
* `lost_forever`: the two together.
-/
namespace Explorer.Iroha.StreamServer

open StreamBlocks
open Delivery (Obs)

variable {E : Type}

/-- Block `h` is committed, neither call will hand it over, and the stream
waits for it. -/
structure Lost (h : Nat) (s : Sys E) : Prop where
  height : s.client.height = h
  committed : h ≤ s.committed
  waiting : (s.client.loop = .getBlock ∧ s.query = some none) ∨ s.client.loop = .returned
  consumer : s.client.consumer = none
  queue : ∀ b ∈ s.client.streamQueue, blockHeight b ≠ h
  sub : ∀ n, s.sub = some n → h < n
  absent : ∀ b ∈ delivered s.client, blockHeight b ≠ h

theorem whileQueue_lost {h : Nat} {c : Caller} {queue : List Block} {s : St E}
    (hh : s.height = h) (hq : ∀ b ∈ queue, blockHeight b ≠ h) :
    ∃ rest lock, whileQueue c queue s = returnTo { s with streamQueue := rest, onBlockLock := lock } c ∧
      ∀ b ∈ rest, b ∈ queue := by
  induction queue with
  | nil => exact ⟨[], false, rfl, by simp⟩
  | cons b queue ih =>
    simp only [whileQueue]
    split
    · exact ⟨queue, s.onBlockLock, rfl, fun _ hx => List.mem_cons_of_mem _ hx⟩
    · rw [if_neg (by rw [hh]; exact hq b List.mem_cons_self)]
      obtain ⟨rest, lock, e, hsub⟩ := ih fun x hx => hq x (List.mem_cons_of_mem _ hx)
      exact ⟨rest, lock, e, fun x hx => List.mem_cons_of_mem _ (hsub x hx)⟩

theorem lost_step {C : Chain} {h : Nat} {s s' : Sys E} {l : Lbl} (hL : Lost h s)
    (hs : sysStep C s l = some s') : Lost h s' := by
  obtain ⟨hh, hcom, hw, hcons, hq, hsub, habs⟩ := hL
  cases move_of_step hs with
  | commit => exact ⟨hh, Nat.le_succ_of_le hcom, hw, hcons, hq, hsub, habs⟩
  | evaluate hloop hquery =>
    rcases hw with ⟨-, hw⟩ | hw
    · rw [hquery] at hw; cases hw
    · rw [hloop] at hw; cases hw
  | reply answer c hqr hc =>
    rcases hw with ⟨hl, hw⟩ | hw
    · rw [hqr, Option.some.injEq] at hw
      subst hw
      simp only [step, if_pos hl, Option.some.injEq] at hc
      subst hc
      unfold afterLoop
      split
      · exact ⟨hh, hcom, .inr rfl, hcons, hq, hsub, habs⟩
      · simp only [streamTryConsume, Bool.false_eq_true, if_false]
        obtain ⟨rest, lock, e, hrest⟩ := whileQueue_lost (c := .backfill)
          (s := { s.client with onBlockLock := true, loop := .consume }) hh hq
        rw [e]
        exact ⟨hh, hcom, .inr rfl, hcons, fun b hb => hq b (hrest b hb), hsub, habs⟩
    · simp [step, hw] at hc
  | subscribe hsub =>
    refine ⟨hh, hcom, hw, hcons, hq, fun n hn => ?_, habs⟩
    simp only [Option.some.injEq] at hn
    omega
  | deliver n c hsb hcommitted hc =>
    have hn := hsub n hsb
    have hsub' : ∀ n', some (n + 1) = some n' → h < n' := by
      intro n' e
      simp only [Option.some.injEq] at e
      omega
    have hq' : ∀ b ∈ s.client.streamQueue ++ [C.block n], blockHeight b ≠ h := by
      intro b hb
      rcases List.mem_append.1 hb with hb | hb
      · exact hq b hb
      · rw [List.mem_singleton.1 hb, C.height]; omega
    simp only [step] at hc
    split at hc
    · simp only [Option.some.injEq] at hc
      subst hc
      exact ⟨hh, hcom, hw, hcons, hq, hsub', habs⟩
    · simp only [Option.some.injEq] at hc
      subst hc
      unfold streamTryConsume
      split
      · exact ⟨hh, hcom, hw, hcons, hq', hsub', habs⟩
      · obtain ⟨rest, lock, e, hrest⟩ := whileQueue_lost (c := .stream)
          (s := { s.client with
            streamQueue := s.client.streamQueue ++ [C.block n], onBlockLock := true }) hh hq'
        rw [e]
        exact ⟨hh, hcom, hw, hcons, fun b hb => hq' b (hrest b hb), hsub', habs⟩
  | onBlockResolve c hc => rcases hw with ⟨hl, -⟩ | hl <;> simp [step, hl, hcons] at hc

/-- While the subscription is not in effect, only the awaited height has
been answered null, and it is not asked for again. -/
structure Unsubscribed (firstHeight : Nat) (s : Sys E) : Prop where
  client : StreamBlocks.Inv firstHeight s.client
  live : s.client.ended = false ∧ stopped s.client = false
  asked : s.query ≠ none → s.client.loop = .getBlock
  queue : s.client.streamQueue = []
  consumer : s.client.consumer = none
  nulls : ∀ h ∈ s.answeredNull, s.client.height = h ∧
    (s.query = some none ∨ s.client.loop = .returned)

/-- While the loop is asking or delivering, nothing was answered null. -/
theorem Unsubscribed.nulls_nil {firstHeight : Nat} {s : Sys E} (h : Unsubscribed firstHeight s)
    (hq : s.query ≠ some none) (hl : s.client.loop ≠ .returned) : s.answeredNull = [] := by
  rw [List.eq_nil_iff_forall_not_mem]
  intro x hx
  rcases (h.nulls x hx).2 with hq' | hl'
  · exact hq hq'
  · exact hl hl'

theorem unsubscribed_step {C : Chain} {firstHeight : Nat} {s s' : Sys E} {l : Lbl}
    (h : s.sub = none → Unsubscribed firstHeight s) (hs : sysStep C s l = some s') :
    s'.sub = none → Unsubscribed firstHeight s' := by
  intro hsub'
  cases move_of_step hs with
  | commit =>
    obtain ⟨h1, h2, h3, h4, h5, h6⟩ := h hsub'
    exact ⟨h1, h2, h3, h4, h5, h6⟩
  | evaluate hloop hq =>
    have hnil := (h hsub').nulls_nil (by simp [hq]) (by simp [hloop])
    obtain ⟨h1, h2, h3, h4, h5, -⟩ := h hsub'
    refine ⟨h1, h2, fun _ => hloop, h4, h5, fun x hx => ?_⟩
    simp only [hnil] at hx ⊢
    split at hx
    · rename_i hnone
      exact ⟨(List.mem_singleton.1 hx).symm, .inl (by rw [hnone])⟩
    · cases hx
  | reply answer c hqr hc =>
    have hU := h hsub'
    obtain ⟨h1, h2, h3, h4, h5, h6⟩ := h hsub'
    have hinv := StreamBlocks.inv_step h1 hc
    have hl := h3 (by simp [hqr])
    simp only [step, if_pos hl] at hc
    cases answer with
    | none =>
      simp only [afterLoop, h2.1, Bool.false_eq_true, if_false, streamTryConsume, h4, whileQueue,
        returnTo, Option.some.injEq] at hc
      subst hc
      exact ⟨hinv, ⟨rfl, h2.2⟩, by simp, rfl, h5, fun x hx => ⟨(h6 x hx).1, .inr rfl⟩⟩
    | some block =>
      have hnil := hU.nulls_nil (by simp [hqr]) (by simp [hl])
      simp only [streamReached, h4, Bool.false_eq_true, or_false] at hc
      split at hc
      · rw [if_neg (by simp [h2.1]), Option.some.injEq] at hc
        subst hc
        have hst := h2.2
        exact ⟨hinv, ⟨h2.1, by simpa [stopped, Obs.isStop] using hst⟩, by simp, rfl, h5,
          by simp [hnil]⟩
      · cases hc
  | subscribe hsub => cases hsub'
  | deliver n c hsb hn hc => cases hsub'
  | onBlockResolve c hc =>
    have hU := h hsub'
    obtain ⟨h1, h2, h3, h4, h5, h6⟩ := h hsub'
    have hinv := StreamBlocks.inv_step h1 hc
    simp only [step, h5] at hc
    split at hc
    · rename_i hl
      simp only [Option.some.injEq] at hc
      subst hc
      have hquery : s.query = none := by
        by_contra hne
        rw [h3 hne] at hl; cases hl
      have hnil := hU.nulls_nil (by simp [hquery]) (by simp [hl])
      have hst := h2.2
      exact ⟨hinv, ⟨h2.1, by simpa [stopped, Obs.isStop] using hst⟩, by simp [hquery], h4, rfl,
        by simp [hnil]⟩
    · cases hc

theorem unsubscribed_inductive (C : Chain) (firstHeight : Nat) :
    (sys E C firstHeight).Inductive fun s => s.sub = none → Unsubscribed firstHeight s where
  init s hs _ := by
    obtain ⟨n, rfl⟩ := hs
    exact ⟨StreamBlocks.inv_init firstHeight, ⟨rfl, rfl⟩, by simp [opened], rfl, rfl, by simp [opened]⟩
  step _ _ _ h hs := unsubscribed_step h hs

/-- **The condition is exact.** A block committed after `getBlock` answered
null for it and before the subscription takes effect is never passed to
`onBlock`, in any continuation of the run. -/
theorem lost_forever (C : Chain) (firstHeight : Nat) {s s' s'' : Sys E} {ls : List Lbl}
    (hr : (sys E C firstHeight).Reachable s) (hsub : s.sub = none)
    (hnull : s.committed + 1 ∈ s.answeredNull) (hs : sysStep C s .commit = some s')
    (hrun : (sys E C firstHeight).Run s' ls s'') :
    C.block (s.committed + 1) ∉ delivered s''.client := by
  obtain ⟨h1, h2, h3, h4, h5, h6⟩ := (unsubscribed_inductive C firstHeight).reachable s hr hsub
  obtain ⟨hh, hw⟩ := h6 _ hnull
  have hw' : (s.client.loop = .getBlock ∧ s.query = some none) ∨ s.client.loop = .returned := by
    rcases hw with hq | hl
    · exact .inl ⟨h3 (by simp [hq]), hq⟩
    · exact .inr hl
  have hbusy : busy s.client = false := by
    rcases hw' with ⟨hl, -⟩ | hl <;> simp [busy, hl, h5]
  simp only [sysStep, Option.some.injEq] at hs
  subst hs
  have hL : Lost (s.committed + 1) { s with committed := s.committed + 1 } := by
    refine ⟨hh, Nat.le_refl _, hw', h5, ?_, ?_, ?_⟩
    · intro b hb
      simp only [h4] at hb
      cases hb
    · intro n hn
      simp only [hsub] at hn
      cases hn
    · intro b hb
      have := Delivery.calls_lt_next h1.accepted hbusy h2.2 b hb
      simp only [delivery] at this
      omega
  have hend := hrun.keeps (I := Lost (s.committed + 1)) (fun _ _ _ hL hs => lost_step hL hs) hL
  intro hmem
  exact hend.absent _ hmem (C.height _)

end Explorer.Iroha.StreamServer
