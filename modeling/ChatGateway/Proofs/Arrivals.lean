import ChatGateway.Proofs.Emission
import Mathlib.Data.List.TakeWhile

/-!
# Native calls in what arrives

`calls` reads the native calls off what arrives: a call lasts as long as only fragments arrive that
open no other, and its text is what those for its slot say. `gather` finds the same calls one arrival
after the other, so that the cuts of the arguments do not matter (`Recut`).
-/

namespace ChatGateway.Answer.Stream

open Markup Messages

/-! ## What arrives -/

/-- What matters to native calls: a fragment of one, or anything that ends the open one. -/
inductive Arrival where
  | fragment (f : Chat.CallFragment)
  | other

def header? (f : Chat.CallFragment) : Option (String × String) :=
  match f.id, filled f.name? with
  | some id, some name => some (id, name)
  | _, _ => none

def argumentsFor (slot : Nat) : List Arrival → List Char
  | [] => []
  | .fragment f :: as =>
    (if f.index = slot then (f.arguments?.getD "").toList else []) ++ argumentsFor slot as
  | .other :: as => argumentsFor slot as

def stays (slot : Nat) (id : String) : Arrival → Bool
  | .other => false
  | .fragment f =>
    match header? f with
    | none => true
    | some (id', _) => slot == f.index && id == id'

structure Native where
  slot : Nat
  id : String
  name : String
  text : List Char
deriving DecidableEq, Repr

/-- The native calls that have ended, and the one that is still open. -/
def calls : List Arrival → List Native × Option Native
  | [] => ([], none)
  | .other :: as => calls as
  | .fragment f :: as =>
    match header? f with
    | none => calls as
    | some (id, name) =>
      let n : Native := ⟨f.index, id, name,
        argumentsFor f.index (.fragment f :: as.takeWhile (stays f.index id))⟩
      let later := as.dropWhile (stays f.index id)
      if later.isEmpty then ([], some n) else (n :: (calls later).1, (calls later).2)
termination_by as => as.length
decreasing_by
  · exact Nat.lt_succ_self _
  · exact Nat.lt_succ_self _
  · exact Nat.lt_succ_of_le (Text.length_dropWhile_le _ as)

def arrivalsOf (x : Chat.ChunkChoice) : List Arrival :=
  (if x.delta.reasoning.getD "" = "" then [] else [.other]) ++
    (x.delta.toolCalls.getD []).map .fragment ++
    (if x.delta.content.getD "" = "" then [] else [.other])

def arrivals : List Input → List Arrival
  | [] => []
  | .start :: is => arrivals is
  | .chunk k :: is => k.choices.head?.elim [] arrivalsOf ++ arrivals is
  | .finish :: _ => [.other]

/-! ## Calls, one arrival after the other -/

def opens? : Arrival → Option Native
  | .other => none
  | .fragment f =>
    (header? f).map fun (id, name) => ⟨f.index, id, name, argumentsFor f.index [.fragment f]⟩

def Native.grown (n : Native) (as : List Arrival) : Native :=
  { n with text := n.text ++ argumentsFor n.slot as }

def take (o : Option Native) (a : Arrival) : List Native × Option Native :=
  match o with
  | none => ([], opens? a)
  | some n => if stays n.slot n.id a then ([], some (n.grown [a])) else ([n], opens? a)

def gather : Option Native → List Arrival → List Native × Option Native
  | o, [] => ([], o)
  | o, a :: as => ((take o a).1 ++ (gather (take o a).2 as).1, (gather (take o a).2 as).2)

theorem argumentsFor_append (slot : Nat) (as bs : List Arrival) :
    argumentsFor slot (as ++ bs) = argumentsFor slot as ++ argumentsFor slot bs := by
  induction as with
  | nil => rfl
  | cons a as ih => cases a <;> simp [argumentsFor, ih]

theorem Native.grown_append (n : Native) (as bs : List Arrival) :
    (n.grown as).grown bs = n.grown (as ++ bs) := by
  simp [grown, argumentsFor_append]

theorem Native.grown_nil (n : Native) : n.grown [] = n := by
  simp [grown, argumentsFor]

theorem gather_append (o : Option Native) (as bs : List Arrival) :
    gather o (as ++ bs) =
      ((gather o as).1 ++ (gather (gather o as).2 bs).1, (gather (gather o as).2 bs).2) := by
  induction as generalizing o with
  | nil => rfl
  | cons a as ih => simp [gather, ih]

theorem gather_some (n : Native) (as : List Arrival) :
    gather (some n) as =
      if (as.dropWhile (stays n.slot n.id)).isEmpty then
        ([], some (n.grown (as.takeWhile (stays n.slot n.id))))
      else (n.grown (as.takeWhile (stays n.slot n.id)) ::
          (gather none (as.dropWhile (stays n.slot n.id))).1,
        (gather none (as.dropWhile (stays n.slot n.id))).2) := by
  induction as generalizing n with
  | nil => simp [gather, n.grown_nil]
  | cons a as ih =>
    cases h : stays n.slot n.id a with
    | true =>
      have hgrown := ih (n.grown [a])
      rw [List.dropWhile_cons_of_pos h, List.takeWhile_cons_of_pos h, gather, take, if_pos h]
      simp only [List.nil_append, Native.grown_append] at hgrown ⊢
      exact hgrown
    | false =>
      rw [List.dropWhile_cons_of_neg (by simp [h]), List.takeWhile_cons_of_neg (by simp [h]),
        n.grown_nil, gather, take, if_neg (by simp [h])]
      rfl

theorem gather_none (as : List Arrival) : gather none as = calls as := by
  induction h : as.length using Nat.strongRecOn generalizing as with
  | _ l ih =>
    cases as with
    | nil => rw [calls]; rfl
    | cons a as =>
      have htail := ih as.length (by simp [← h]) as rfl
      cases a with
      | other => rw [calls, ← htail]; rfl
      | fragment f =>
        cases hf : header? f with
        | none =>
          rw [calls, hf, ← htail, gather, take, opens?, hf]
          rfl
        | some p =>
          obtain ⟨id, name⟩ := p
          have hlater := ih (as.dropWhile (stays f.index id)).length
            (h ▸ Nat.lt_succ_of_le (Text.length_dropWhile_le _ as)) _ rfl
          have hopens : opens? (.fragment f) =
              some ⟨f.index, id, name, argumentsFor f.index [.fragment f]⟩ := by
            rw [opens?, hf]
            rfl
          rw [calls, hf, gather, take, hopens, gather_some, hlater]
          simp only [List.nil_append, Native.grown, ← argumentsFor_append, List.singleton_append]

/-! ## Arguments cut otherwise -/

/-- Fragments that share out the arguments of one. The later ones may repeat its header. -/
structure Recut (f g : Chat.CallFragment) (gs : List Chat.CallFragment) : Prop where
  index : g.index = f.index
  header : header? g = header? f
  later : ∀ k ∈ gs, k.index = f.index ∧ (header? k = none ∨ header? k = header? f)
  text : argumentsFor f.index ((g :: gs).map .fragment) = argumentsFor f.index [.fragment f]

theorem gather_of_stays {n : Native} {as : List Arrival}
    (h : ∀ a ∈ as, stays n.slot n.id a = true) : gather (some n) as = ([], some (n.grown as)) := by
  rw [gather_some, List.dropWhile_eq_nil_iff.mpr h, List.takeWhile_eq_self_iff.mpr h]
  rfl

theorem gather_of_headless {as : List Arrival} (h : ∀ a ∈ as, opens? a = none) :
    gather none as = ([], none) := by
  induction as with
  | nil => rfl
  | cons a as ih =>
    obtain ⟨ha, has⟩ := List.forall_mem_cons.mp h
    rw [gather, take, ha, ih has]
    rfl

theorem argumentsFor_of_other {slot : Nat} {fs : List Chat.CallFragment}
    (h : ∀ f ∈ fs, f.index ≠ slot) : argumentsFor slot (fs.map .fragment) = [] := by
  induction fs with
  | nil => rfl
  | cons f fs ih =>
    obtain ⟨hf, hfs⟩ := List.forall_mem_cons.mp h
    rw [List.map_cons, argumentsFor, if_neg hf, ih hfs]
    rfl

theorem opens?_of_header {f : Chat.CallFragment} {id name : String}
    (h : header? f = some (id, name)) :
    opens? (.fragment f) = some ⟨f.index, id, name, argumentsFor f.index [.fragment f]⟩ := by
  rw [opens?, h]
  rfl

theorem opens?_of_headless {f : Chat.CallFragment} (h : header? f = none) :
    opens? (.fragment f) = none := by
  rw [opens?, h]
  rfl

section
variable {f g : Chat.CallFragment} {gs : List Chat.CallFragment} (hr : Recut f g gs)
include hr

theorem Recut.argumentsFor_eq (slot : Nat) :
    argumentsFor slot ((g :: gs).map .fragment) = argumentsFor slot [.fragment f] := by
  by_cases hslot : f.index = slot
  · subst hslot
    exact hr.text
  · have hall : ∀ k ∈ g :: gs, k.index ≠ slot :=
      List.forall_mem_cons.mpr ⟨hr.index ▸ hslot, fun k hk => (hr.later k hk).1 ▸ hslot⟩
    have hone : ∀ k ∈ [f], k.index ≠ slot := List.forall_mem_singleton.mpr hslot
    rw [argumentsFor_of_other hall]
    exact (argumentsFor_of_other hone).symm

theorem Recut.all_stay {slot : Nat} {id : String} (h : stays slot id (.fragment f) = true) :
    ∀ a ∈ (g :: gs).map .fragment, stays slot id a = true := by
  have hsame : ∀ k, k.index = f.index → (header? k = none ∨ header? k = header? f) →
      stays slot id (.fragment k) = true := by
    intro k hi hk
    rcases hk with hk | hk
    · rw [stays, hk]
    · rw [stays] at h ⊢
      rw [hk, hi]
      exact h
  refine List.forall_mem_map.mpr (List.forall_mem_cons.mpr ⟨?_, fun k hk => ?_⟩)
  · exact hsame g hr.index (.inr hr.header)
  · exact hsame k (hr.later k hk).1 (hr.later k hk).2

theorem Recut.gather_none_eq : gather none ((g :: gs).map .fragment) = gather none [.fragment f] := by
  cases hf : header? f with
  | none =>
    have hnone : ∀ k, (header? k = none ∨ header? k = header? f) → opens? (.fragment k) = none :=
      fun k hk => opens?_of_headless (hk.elim id (·.trans hf))
    rw [gather_of_headless, gather_of_headless]
    · simpa using hnone f (.inr rfl)
    · exact List.forall_mem_map.mpr (List.forall_mem_cons.mpr
        ⟨hnone g (.inr hr.header), fun k hk => hnone k (hr.later k hk).2⟩)
  | some p =>
    obtain ⟨id, name⟩ := p
    have hstays : stays f.index id (.fragment f) = true := by simp [stays, hf]
    have hlater := (List.forall_mem_cons.mp (hr.all_stay hstays)).2
    have htext := hr.text
    rw [List.map_cons, ← List.singleton_append, argumentsFor_append] at htext
    rw [List.map_cons, gather, take, opens?_of_header (hr.header.trans hf), hr.index, gather, take,
      opens?_of_header hf, gather_of_stays hlater, Native.grown, htext]
    rfl

theorem Recut.gather_eq (o : Option Native) :
    gather o ((g :: gs).map .fragment) = gather o [.fragment f] := by
  cases o with
  | none => exact hr.gather_none_eq
  | some n =>
    cases hf : stays n.slot n.id (.fragment f) with
    | true =>
      rw [gather_of_stays (hr.all_stay hf), gather_of_stays (by simpa using hf), Native.grown,
        Native.grown, hr.argumentsFor_eq]
    | false =>
      have hg : stays n.slot n.id (.fragment g) = false := by
        rw [stays] at hf ⊢
        rw [hr.header, hr.index]
        exact hf
      have h := hr.gather_none_eq
      simp only [List.map_cons, gather, take, hf, hg] at h ⊢
      simp_all

theorem Recut.calls_eq (as bs : List Arrival) :
    calls (as ++ (g :: gs).map .fragment ++ bs) = calls (as ++ .fragment f :: bs) := by
  have hone : as ++ .fragment f :: bs = as ++ [.fragment f] ++ bs := by simp
  rw [hone, ← gather_none, ← gather_none]
  simp only [gather_append, hr.gather_eq]

end

end ChatGateway.Answer.Stream
