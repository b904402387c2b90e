/-!
# Hash chains

Headers each of which carries the digest of the one before it. The digest of
the last header stands for all of them: two chains of one length whose last
digests are equal are the same, unless two different headers with the same
digest have been found.

* `agree_or_collision`: that, for arbitrary headers and digests.
-/
namespace Explorer.HashChain

universe u v

variable {Header : Type u} {Digest : Type v}

/-- The headers `f 0, …, f n`, each behind the one before it. -/
def Linked (hash previous : Header → Digest) (f : Nat → Header) (n : Nat) : Prop :=
  ∀ k < n, previous (f (k + 1)) = hash (f k)

variable {hash previous : Header → Digest} {f g : Nat → Header}

theorem Linked.mono {n m : Nat} (h : Linked hash previous f n) (hm : m ≤ n) :
    Linked hash previous f m := fun k hk => h k (Nat.lt_of_lt_of_le hk hm)

/-- **The last digest stands for the chain.** -/
theorem agree_or_collision {n : Nat} (hf : Linked hash previous f n) (hg : Linked hash previous g n)
    (h : hash (f n) = hash (g n)) : (∀ k ≤ n, f k = g k) ∨ ∃ k ≤ n, f k ≠ g k ∧ hash (f k) = hash (g k) := by
  by_cases hn : f n = g n
  · induction n with
    | zero =>
      left
      intro k hk
      rwa [Nat.le_zero.1 hk]
    | succ n ih =>
      have hprev : hash (f n) = hash (g n) := by
        rw [← hf n (Nat.lt_succ_self n), ← hg n (Nat.lt_succ_self n), hn]
      by_cases hn' : f n = g n
      · rcases ih (hf.mono (Nat.le_succ n)) (hg.mono (Nat.le_succ n)) hprev hn' with hall | ⟨k, hk, hne⟩
        · left
          intro k hk
          rcases Nat.lt_succ_iff_lt_or_eq.1 (Nat.lt_succ_of_le hk) with hlt | rfl
          · exact hall k (Nat.le_of_lt_succ hlt)
          · exact hn
        · exact .inr ⟨k, Nat.le_succ_of_le hk, hne⟩
      · exact .inr ⟨n, Nat.le_succ n, hn', hprev⟩
  · exact .inr ⟨n, Nat.le_refl n, hn, h⟩

end Explorer.HashChain
