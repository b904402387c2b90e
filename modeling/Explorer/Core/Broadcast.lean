import Mathlib.Data.List.Infix

/-!
# Broadcasting

A relay takes messages out of a pipe, in their order, and broadcasts what it
reads in them to the subscribers that are open at that moment. Subscribers
join and leave; one that has left stays closed.

* `Heard ms c c'`: `c` has become `c'` while `ms` was broadcast: it got an
  initial part of `ms`, and all of it if it is still open.
* `Carried new ms r r'`: the relay has gone from `r` to `r'` while `new` was
  put into the pipe and `ms` was broadcast. What was lost on the way is
  missing in `ms`; nothing else is, nothing is broadcast twice, and the order
  is kept.
* `Carried.trans`: a whole run, from its steps.
-/
namespace Explorer.Broadcast

universe u v

variable {A : Type u} {M : Type v}

/-! ## One subscriber -/

structure Subscriber (M : Type v) where
  isOpen : Bool
  received : List M
  deriving DecidableEq, Repr

def Subscriber.joined : Subscriber M := ⟨true, []⟩

def Subscriber.hear (m : M) (c : Subscriber M) : Subscriber M :=
  if c.isOpen then { c with received := c.received ++ [m] } else c

def Subscriber.left (c : Subscriber M) : Subscriber M := { c with isOpen := false }

/-- `c` has become `c'` while `ms` was broadcast. -/
structure Heard (ms : List M) (c c' : Subscriber M) : Prop where
  still : c'.isOpen = true → c.isOpen = true ∧ c'.received = c.received ++ ms
  closed : c.isOpen = false → c'.received = c.received
  part : ∃ ks, ks <+: ms ∧ c'.received = c.received ++ ks

theorem Heard.refl (c : Subscriber M) : Heard [] c c :=
  ⟨fun h => ⟨h, (List.append_nil _).symm⟩, fun _ => rfl, [], List.prefix_rfl, (List.append_nil _).symm⟩

theorem Heard.trans {ms ms' : List M} {c c' c'' : Subscriber M} (h : Heard ms c c') (h' : Heard ms' c' c'') :
    Heard (ms ++ ms') c c'' := by
  refine ⟨fun hopen => ?_, fun hclosed => ?_, ?_⟩
  · obtain ⟨hmid, hlast⟩ := h'.still hopen
    obtain ⟨hfirst, hfirst'⟩ := h.still hmid
    exact ⟨hfirst, by rw [hlast, hfirst', List.append_assoc]⟩
  · have hmid : c'.isOpen = false := by
      by_contra hopen
      rw [Bool.not_eq_false] at hopen
      rw [(h.still hopen).1] at hclosed
      cases hclosed
    rw [h'.closed hmid, h.closed hclosed]
  · obtain ⟨ks, hks, hreceived⟩ := h.part
    cases hmid : c'.isOpen with
    | true =>
      obtain ⟨ks', hks', hlast⟩ := h'.part
      refine ⟨ms ++ ks', List.prefix_append_right_inj ms |>.2 hks', ?_⟩
      rw [hlast, (h.still hmid).2, List.append_assoc]
    | false =>
      exact ⟨ks, hks.trans (List.prefix_append ms ms'), by rw [h'.closed hmid, hreceived]⟩

theorem heard_hear (m : M) (c : Subscriber M) : Heard [m] c (c.hear m) := by
  cases hopen : c.isOpen with
  | true =>
    have hhear : c.hear m = { c with received := c.received ++ [m] } := if_pos hopen
    rw [hhear]
    exact ⟨fun _ => ⟨hopen, rfl⟩, fun hclosed => absurd (hclosed.symm.trans hopen) Bool.false_ne_true,
      [m], List.prefix_rfl, rfl⟩
  | false =>
    have hhear : c.hear m = c := if_neg (by rw [hopen]; exact Bool.false_ne_true)
    rw [hhear]
    exact ⟨fun h => absurd (hopen.symm.trans h) Bool.false_ne_true, fun _ => rfl,
      [], List.nil_prefix, (List.append_nil _).symm⟩

theorem heard_left (c : Subscriber M) : Heard [] c c.left :=
  ⟨fun h => absurd h Bool.false_ne_true, fun _ => rfl, [], List.prefix_rfl, (List.append_nil _).symm⟩

/-! ## The relay -/

structure Relay (A : Type u) (M : Type v) where
  pipe : List A
  subscribers : List (Subscriber M)
  deriving DecidableEq, Repr

namespace Relay

def put (new : List A) (r : Relay A M) : Relay A M := { r with pipe := r.pipe ++ new }

/-- The first message is taken out of the pipe. -/
def take (read : A → Option M) (r : Relay A M) : Option (Relay A M) :=
  match r.pipe with
  | [] => none
  | a :: rest => some ⟨rest, match read a with
    | some m => r.subscribers.map (Subscriber.hear m)
    | none => r.subscribers⟩

def join (r : Relay A M) : Relay A M := { r with subscribers := r.subscribers ++ [.joined] }

def leave (i : Nat) (r : Relay A M) : Relay A M := { r with subscribers := r.subscribers.modify i .left }

def closeAll (r : Relay A M) : Relay A M := { r with subscribers := r.subscribers.map .left }

/-- What is in the pipe is lost, and everybody has left. -/
def lose (r : Relay A M) : Relay A M := { r.closeAll with pipe := [] }

end Relay

/-- Those that were there have heard `ms`, the others the last part of it,
since they joined. -/
structure HeardAll (ms : List M) (cs cs' : List (Subscriber M)) : Prop where
  old : ∀ (i : Nat) (c : Subscriber M), cs[i]? = some c → ∃ c', cs'[i]? = some c' ∧ Heard ms c c'
  new : ∀ (i : Nat) (c' : Subscriber M), cs.length ≤ i → cs'[i]? = some c' →
    ∃ ns, ns <:+ ms ∧ Heard ns .joined c'

theorem HeardAll.length_le {ms : List M} {cs cs' : List (Subscriber M)} (h : HeardAll ms cs cs') :
    cs.length ≤ cs'.length := by
  by_contra hlt
  obtain ⟨c', hc', -⟩ := h.old cs'.length _ (List.getElem?_eq_getElem (by omega))
  rw [List.getElem?_eq_none (Nat.le_refl _)] at hc'
  cases hc'

theorem HeardAll.trans {ms ms' : List M} {cs cs' cs'' : List (Subscriber M)} (h : HeardAll ms cs cs')
    (h' : HeardAll ms' cs' cs'') : HeardAll (ms ++ ms') cs cs'' := by
  refine ⟨fun i c hc => ?_, fun i c'' hi hc'' => ?_⟩
  · obtain ⟨c', hc', hheard⟩ := h.old i c hc
    obtain ⟨c'', hc'', hheard'⟩ := h'.old i c' hc'
    exact ⟨c'', hc'', hheard.trans hheard'⟩
  · by_cases hlen : i < cs'.length
    · obtain ⟨ns, hns, hheard⟩ := h.new i cs'[i] hi (List.getElem?_eq_getElem hlen)
      obtain ⟨last, hlast, hheard'⟩ := h'.old i cs'[i] (List.getElem?_eq_getElem hlen)
      rw [hc''] at hlast
      cases hlast
      obtain ⟨before, rfl⟩ := hns
      exact ⟨ns ++ ms', ⟨before, (List.append_assoc before ns ms').symm⟩, hheard.trans hheard'⟩
    · obtain ⟨ns, hns, hheard⟩ := h'.new i c'' (Nat.le_of_not_lt hlen) hc''
      exact ⟨ns, hns.trans (List.suffix_append ms ms'), hheard⟩

/-- Every subscriber hears the same thing. -/
theorem heardAll_map {ms : List M} {f : Subscriber M → Subscriber M} (h : ∀ c, Heard ms c (f c))
    (cs : List (Subscriber M)) : HeardAll ms cs (cs.map f) := by
  refine ⟨fun i c hc => ⟨f c, by rw [List.getElem?_map, hc, Option.map_some], h c⟩, fun i c' hi hc' => ?_⟩
  rw [List.getElem?_eq_none (by rw [List.length_map]; exact hi)] at hc'
  cases hc'

theorem heardAll_refl (cs : List (Subscriber M)) : HeardAll [] cs cs := by
  have h := heardAll_map Heard.refl cs
  rwa [List.map_id'] at h

theorem heardAll_join (cs : List (Subscriber M)) : HeardAll [] cs (cs ++ [.joined]) := by
  refine ⟨fun i c hc => ⟨c, ?_, Heard.refl c⟩, fun i c' hi hc' => ?_⟩
  · rw [List.getElem?_append_left (List.getElem?_eq_some_iff.1 hc).1, hc]
  · rw [List.getElem?_append_right hi, List.getElem?_singleton] at hc'
    split at hc'
    · cases hc'
      exact ⟨[], List.suffix_rfl, Heard.refl _⟩
    · cases hc'

theorem heardAll_leave (i : Nat) (cs : List (Subscriber M)) : HeardAll [] cs (cs.modify i .left) := by
  refine ⟨fun j c hc => ?_, fun j c' hj hc' => ?_⟩
  · rw [List.getElem?_modify, hc]
    by_cases hij : i = j
    · exact ⟨c.left, by simp [hij], heard_left c⟩
    · exact ⟨c, by simp [hij], Heard.refl c⟩
  · rw [List.getElem?_eq_none (by rw [List.length_modify]; exact hj)] at hc'
    cases hc'

/-! ## What a relay carries -/

variable (read : A → Option M)

/-- The relay has gone from `r` to `r'` while `new` was put into the pipe and
`ms` was broadcast. -/
structure Carried (new : List A) (ms : List M) (r r' : Relay A M) : Prop where
  pipe : (ms ++ r'.pipe.filterMap read).Sublist ((r.pipe ++ new).filterMap read)
  heard : HeardAll ms r.subscribers r'.subscribers

/-- Nothing was lost on the way. -/
structure CarriedAll (new : List A) (ms : List M) (r r' : Relay A M) : Prop where
  pipe : ms ++ r'.pipe.filterMap read = (r.pipe ++ new).filterMap read
  heard : HeardAll ms r.subscribers r'.subscribers

variable {read}

theorem CarriedAll.carried {new : List A} {ms : List M} {r r' : Relay A M} (h : CarriedAll read new ms r r') :
    Carried read new ms r r' :=
  ⟨h.pipe ▸ List.Sublist.refl _, h.heard⟩

theorem Carried.trans {new new' : List A} {ms ms' : List M} {r r' r'' : Relay A M}
    (h : Carried read new ms r r') (h' : Carried read new' ms' r' r'') :
    Carried read (new ++ new') (ms ++ ms') r r'' := by
  refine ⟨?_, h.heard.trans h'.heard⟩
  have hlast := (List.Sublist.refl ms).append h'.pipe
  rw [List.filterMap_append, ← List.append_assoc, ← List.append_assoc] at hlast
  rw [← List.append_assoc, List.filterMap_append]
  exact hlast.trans (h.pipe.append (List.Sublist.refl _))

theorem CarriedAll.trans {new new' : List A} {ms ms' : List M} {r r' r'' : Relay A M}
    (h : CarriedAll read new ms r r') (h' : CarriedAll read new' ms' r' r'') :
    CarriedAll read (new ++ new') (ms ++ ms') r r'' := by
  refine ⟨?_, h.heard.trans h'.heard⟩
  rw [List.append_assoc, h'.pipe, List.filterMap_append, ← List.append_assoc, h.pipe, ← List.append_assoc,
    ← List.filterMap_append]

theorem carriedAll_refl (r : Relay A M) : CarriedAll read [] [] r r :=
  ⟨by rw [List.append_nil, List.nil_append], heardAll_refl _⟩

theorem carriedAll_put (new : List A) (r : Relay A M) : CarriedAll read new [] r (r.put new) :=
  ⟨List.nil_append _, heardAll_refl _⟩

theorem carriedAll_join (r : Relay A M) : CarriedAll read [] [] r r.join :=
  ⟨by rw [List.append_nil, List.nil_append]; rfl, heardAll_join _⟩

theorem carriedAll_leave (i : Nat) (r : Relay A M) : CarriedAll read [] [] r (r.leave i) :=
  ⟨by rw [List.append_nil, List.nil_append]; rfl, heardAll_leave i _⟩

theorem carriedAll_closeAll (r : Relay A M) : CarriedAll read [] [] r r.closeAll :=
  ⟨by rw [List.append_nil, List.nil_append]; rfl, heardAll_map heard_left _⟩

theorem carried_lose (r : Relay A M) : Carried read [] [] r r.lose :=
  ⟨List.nil_sublist _, heardAll_map heard_left _⟩

theorem carriedAll_take {r r' : Relay A M} (h : r.take read = some r') :
    ∃ ms, CarriedAll read [] ms r r' := by
  rw [Relay.take] at h
  split at h
  · cases h
  · rename_i a rest hpipe
    cases h
    cases hread : read a with
    | none =>
      exact ⟨[], by rw [hpipe, List.append_nil, List.filterMap_cons_none hread, List.nil_append], heardAll_refl _⟩
    | some m =>
      exact ⟨[m], by rw [hpipe, List.append_nil, List.filterMap_cons_some hread]; rfl,
        heardAll_map (heard_hear m) _⟩

/-- Nobody was there at first: what each has received is one piece of what
was put into the pipe. -/
theorem Carried.received_sublist {new : List A} {ms : List M} {r r' : Relay A M}
    (h : Carried read new ms r r') (hpipe : r.pipe = []) (hnone : r.subscribers = []) :
    ∀ c ∈ r'.subscribers, c.received <:+: ms ∧ c.received.Sublist (new.filterMap read) := by
  intro c hc
  obtain ⟨i, hi⟩ := List.mem_iff_getElem?.1 hc
  obtain ⟨ns, hns, hheard⟩ := h.heard.new i c (by rw [hnone]; exact Nat.zero_le i) hi
  obtain ⟨ks, hks, hreceived⟩ := hheard.part
  have hpiece : c.received <:+: ms := by
    rw [hreceived]
    exact hks.isInfix.trans hns.isInfix
  have hall := h.pipe
  rw [hpipe, List.nil_append] at hall
  exact ⟨hpiece, hpiece.sublist.trans ((List.sublist_append_left ..).trans hall)⟩

end Explorer.Broadcast
