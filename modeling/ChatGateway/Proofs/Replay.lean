import ChatGateway.Proofs.Natives
import ChatGateway.Proofs.Pacing

/-!
# What a parser sends on, replayed

The deltas of a parser are passed to a stream, each with its content first. A stream takes no further
arguments of a call once content has followed. So a client reads the calls that the parser has found
whenever no delta brings content together with further arguments of an earlier call, and the content
opens no markup of its own.
-/

namespace ChatGateway.Answer.Stream

open Markup Messages

/-! ## Calls behind their headers -/

def fragmentsOf : List Arrival → List Chat.CallFragment
  | [] => []
  | .fragment f :: as => f :: fragmentsOf as
  | .other :: as => fragmentsOf as

/-- Arguments stand behind a header or other arguments, or in front of everything if `b` holds. -/
def Led : Bool → List Arrival → Prop
  | _, [] => True
  | _, .other :: as => Led false as
  | b, .fragment f :: as => (f.name?.isSome = true ∨ b = true) ∧ Led true as

theorem Led.mono {b b' : Bool} {as : List Arrival} (h : Led b as) (hb : b = true → b' = true) :
    Led b' as := by
  cases as with
  | nil => trivial
  | cons a as =>
    cases a with
    | other => exact h
    | fragment f => exact ⟨h.1.imp_right hb, h.2⟩

theorem argumentsOf_of_led {as : List Arrival} (h : Led false as) :
    argumentsOf (fragmentsOf as) = [] := by
  induction as with
  | nil => rfl
  | cons a as ih =>
    cases a with
    | other => exact ih h
    | fragment f =>
      have hf : f.name?.isSome = true := h.1.resolve_right (by simp)
      rw [fragmentsOf, argumentsOf, if_pos hf]

/-- The call that a stream makes of one that a parser sends on, if that has an id and a name. -/
def native? (r : Received) : Option Native :=
  match r.id, filled (some r.name) with
  | some id, some name => some ⟨r.index, id, name, r.arguments⟩
  | _, _ => none

theorem native?_of_name {f : Chat.CallFragment} {name : String} (h : f.name? = some name)
    (t : List Char) : native? ⟨f.index, f.id, name, t⟩ =
      (header? f).map fun p => ⟨f.index, p.1, p.2, t⟩ := by
  unfold native? header?
  rw [h]
  cases f.id with
  | none => rfl
  | some id => cases filled (some name) <;> rfl

theorem header?_of_unnamed {f : Chat.CallFragment} (h : f.name? = none) : header? f = none := by
  unfold header?
  rw [h]
  cases f.id <;> rfl

def Native.grow (m : Native) (n : Nat) (t : List Char) : Native :=
  if m.slot + 1 = n then { m with text := m.text ++ t } else m

theorem Native.grow_nil (m : Native) (n : Nat) : m.grow n [] = m := by
  unfold grow
  split
  · rw [List.append_nil]
  · rfl

theorem Native.grow_of_earlier {m : Native} {n : Nat} (h : m.slot < n) (t : List Char) :
    m.grow (n + 1) t = m := if_neg (by omega)

theorem Native.grown_grow {m : Native} {n : Nat} {f : Chat.CallFragment} (h : f.index + 1 = n)
    (t : List Char) :
    (m.grown [.fragment f]).grow n t = m.grow n (argumentText f ++ t) := by
  unfold grow grown
  by_cases hm : m.slot + 1 = n
  · have hslot : f.index = m.slot := by omega
    simp [hm, argumentsFor, hslot, argumentText]
  · have hslot : f.index ≠ m.slot := by omega
    simp [hm, argumentsFor, hslot]

def gathered (o : Option Native) (as : List Arrival) : List Native :=
  (gather o as).1 ++ (gather o as).2.toList

theorem gathered_cons (o : Option Native) (a : Arrival) (as : List Arrival) :
    gathered o (a :: as) = (take o a).1 ++ gathered (take o a).2 as :=
  List.append_assoc _ _ _

theorem take_headless {f : Chat.CallFragment} (h : header? f = none) (o : Option Native) :
    take o (.fragment f) = ([], o.map (·.grown [.fragment f])) := by
  cases o with
  | none => rw [take, opens?_of_headless h]; rfl
  | some m =>
    have hstays : stays m.slot m.id (.fragment f) = true := by rw [stays, h]
    rw [take, if_pos hstays]
    rfl

theorem take_header {f : Chat.CallFragment} {id name : String} (h : header? f = some (id, name))
    {o : Option Native} (ho : ∀ m ∈ o, m.slot < f.index) : take o (.fragment f) =
      (o.toList, some ⟨f.index, id, name, argumentsFor f.index [.fragment f]⟩) := by
  cases o with
  | none => rw [take, opens?_of_header h]; rfl
  | some m =>
    have hslot := Nat.ne_of_lt (ho m rfl)
    have hleaves : ¬ stays m.slot m.id (.fragment f) = true := by simp [stays, h, hslot]
    rw [take, if_neg hleaves, opens?_of_header h]
    rfl

/-- From the open call `o` on, `as` brings that call the arguments in front of the next header, if
its slot is the one before `n`, and behind them the calls of the headers. -/
def Told (o : Option Native) (n : Nat) (as : List Arrival) : Prop :=
  gathered o as = (o.map (·.grow n (argumentsOf (fragmentsOf as)))).toList ++
    (callsIn (fragmentsOf as)).filterMap native?

section
variable {o : Option Native} {n : Nat} {f : Chat.CallFragment} {as : List Arrival}

theorem told_nil (o : Option Native) (n : Nat) : Told o n [] := by
  cases o with
  | none => rfl
  | some m => simp [Told, gathered, gather, fragmentsOf, argumentsOf, callsIn, m.grow_nil]

theorem Told.other (h : Told none n as) (hl : Led false as) (o : Option Native) :
    Told o n (.other :: as) := by
  have htake : take o .other = (o.toList, none) := by cases o <;> rfl
  have harguments : argumentsOf (fragmentsOf (.other :: as)) = [] := argumentsOf_of_led hl
  rw [Told] at h ⊢
  rw [gathered_cons, htake, h, harguments]
  simp [Native.grow_nil, fragmentsOf]

theorem Told.argument (h : Told (o.map (·.grown [.fragment f])) n as) (hname : f.name? = none)
    (hindex : f.index + 1 = n) : Told o n (.fragment f :: as) := by
  have hgrow : (o.map (·.grown [.fragment f])).map (·.grow n (argumentsOf (fragmentsOf as))) =
      o.map (·.grow n (argumentText f ++ argumentsOf (fragmentsOf as))) := by
    rw [Option.map_map]
    exact congrArg (o.map ·) (funext fun m => Native.grown_grow hindex _)
  rw [Told, hgrow] at h
  rw [Told, gathered_cons, take_headless (header?_of_unnamed hname), h]
  simp [fragmentsOf, argumentsOf, callsIn, hname, argumentText]

theorem callsIn_header (as : List Arrival) {name : String} (hname : f.name? = some name) :
    argumentsOf (fragmentsOf (.fragment f :: as)) = [] ∧
      (callsIn (fragmentsOf (.fragment f :: as))).filterMap native? =
        ((header? f).map fun p => (⟨f.index, p.1, p.2,
          argumentText f ++ argumentsOf (fragmentsOf as)⟩ : Native)).toList ++
            (callsIn (fragmentsOf as)).filterMap native? := by
  have hcalls : callsIn (fragmentsOf (.fragment f :: as)) =
      ⟨f.index, f.id, name, argumentText f ++ argumentsOf (fragmentsOf as)⟩ ::
        callsIn (fragmentsOf as) := by simp [fragmentsOf, callsIn, hname, argumentText]
  refine ⟨by simp [fragmentsOf, argumentsOf, hname], ?_⟩
  rw [hcalls, List.filterMap_cons, native?_of_name hname]
  cases header? f <;> rfl

theorem Told.headless (h : Told o (n + 1) as) {name : String} (hname : f.name? = some name)
    (hf : header? f = none) (hindex : f.index = n) (ho : ∀ m ∈ o, m.slot < n) :
    Told o n (.fragment f :: as) := by
  -- no call is opened, and what the fragment says goes to no other call
  have hopen : o.map (·.grown [.fragment f]) = o := by
    refine (Option.map_congr fun m hm => ?_).trans Option.map_id'
    have hslot : f.index ≠ m.slot := by have := ho m hm; omega
    simp [Native.grown, argumentsFor, hslot]
  have hgrow : ∀ t, o.map (·.grow (n + 1) t) = o.map (·.grow n []) := fun t =>
    Option.map_congr fun m hm => by rw [Native.grow_of_earlier (ho m hm), Native.grow_nil]
  obtain ⟨harguments, hcalls⟩ := callsIn_header as hname
  rw [Told, hgrow] at h
  rw [Told, gathered_cons, take_headless hf, hopen, h, harguments, hcalls, hf]
  rfl

theorem Told.header {id name' : String}
    (h : Told (some ⟨f.index, id, name', argumentsFor f.index [.fragment f]⟩) (n + 1) as)
    {name : String} (hname : f.name? = some name) (hf : header? f = some (id, name'))
    (hindex : f.index = n) (ho : ∀ m ∈ o, m.slot < n) : Told o n (.fragment f :: as) := by
  have hbefore : ∀ m ∈ o, m.slot < f.index := fun m hm => hindex ▸ ho m hm
  have hgrow : o.map (·.grow n []) = o :=
    (Option.map_congr fun m _ => m.grow_nil n).trans Option.map_id'
  obtain ⟨harguments, hcalls⟩ := callsIn_header as hname
  rw [Told] at h ⊢
  rw [gathered_cons, take_header hf hbefore, h, harguments, hgrow, hcalls, hf]
  simp [Native.grow, hindex, argumentsFor, argumentText]

end

theorem told_of_led {n : Nat} {b : Bool} {as : List Arrival} {o : Option Native}
    (hn : Numbered n (fragmentsOf as)) (hl : Led b as) (ho : ∀ m ∈ o, m.slot < n) :
    Told o n as := by
  induction as generalizing n b o with
  | nil => exact told_nil o n
  | cons a as ih =>
    cases a with
    | other => exact .other (ih hn hl (by simp)) hl o
    | fragment f =>
      rw [fragmentsOf, Numbered] at hn
      cases hname : f.name? with
      | none =>
        obtain ⟨hindex, hnum⟩ : f.index + 1 = n ∧ Numbered n (fragmentsOf as) := by
          simpa [hname] using hn
        refine .argument (ih hnum hl.2 fun m hm => ?_) hname hindex
        obtain ⟨m', hm', rfl⟩ := Option.map_eq_some_iff.mp hm
        exact ho m' hm'
      | some name =>
        obtain ⟨hindex, hnum⟩ : f.index = n ∧ Numbered (n + 1) (fragmentsOf as) := by
          simpa [hname] using hn
        cases hf : header? f with
        | none =>
          have hslots : ∀ m ∈ o, m.slot < n + 1 := fun m hm => Nat.lt_succ_of_lt (ho m hm)
          exact .headless (ih hnum hl.2 hslots) hname hf hindex ho
        | some p =>
          refine .header (ih hnum hl.2 fun m hm => ?_) hname hf hindex ho
          obtain rfl := Option.mem_some_iff.mp hm
          exact Nat.lt_succ_of_le (Nat.le_of_eq hindex)

theorem headers_eq (as : List Arrival) :
    headers as = ((callsIn (fragmentsOf as)).filterMap native?).length := by
  induction as with
  | nil => rfl
  | cons a as ih =>
    have hcons : headers (a :: as) = headers as + if (opens? a).isSome then 1 else 0 :=
      List.countP_cons
    rw [hcons, ih]
    cases a with
    | other => rfl
    | fragment f =>
      cases hname : f.name? with
      | none =>
        rw [opens?_of_headless (header?_of_unnamed hname)]
        simp [fragmentsOf, callsIn, hname]
      | some name =>
        rw [(callsIn_header as hname).2, List.length_append, opens?, Nat.add_comm]
        cases header? f <;> rfl

theorem calls_finished (as : List Arrival) : (calls (as ++ [.other])).1 = gathered none as := by
  rw [← gather_none, gather_append, gather_other]
  rfl

theorem callsOf_led (c : Setting) {is : List Input} (hn : .finish ∉ is)
    (hz : Markless (received is)) (hnum : Numbered 0 (fragmentsOf (arrivals is)))
    (hl : Led false (arrivals is)) :
    callsOf (blocksOf (run c (is ++ [.finish]) initial).1) =
      nativeInputs c ((callsIn (fragmentsOf (arrivals is))).filterMap native?) := by
  have hcalls : (calls (arrivals (is ++ [.finish]))).1 =
      (callsIn (fragmentsOf (arrivals is))).filterMap native? := by
    rw [arrivals_append hn, arrivals, calls_finished]
    exact told_of_led hnum hl (by simp)
  have hheaders : headers (arrivals is) ≤ (calls (arrivals (is ++ [.finish]))).1.length := by
    rw [headers_eq, hcalls]
  rw [callsOf_natives c hn hz hheaders, hcalls]

/-! ## Deltas as chunks -/

def deltaInputs (d : Chat.ChunkDelta) : List Input :=
  (d.content.toList.map fun t => .chunk (.ofDelta ⟨none, some t, none, none⟩)) ++
    d.toolCalls.toList.map fun fs => .chunk (.ofDelta ⟨none, none, none, some fs⟩)

def replay (ds : List (Option Chat.ChunkDelta)) : List Input :=
  .start :: ds.flatMap fun d => d.toList.flatMap deltaInputs

def deltaArrivals (d : Option Chat.ChunkDelta) : List Arrival :=
  (if contentIn [d] = [] then [] else [.other]) ++ (fragmentsIn [d]).map .fragment

/-- A delta brings no content together with further arguments of an earlier call. -/
def Unmixed (d : Option Chat.ChunkDelta) : Prop :=
  contentIn [d] = [] ∨ (fragmentsIn [d]).head?.all (·.name?.isSome) = true

instance : DecidablePred Unmixed := fun _ => inferInstanceAs (Decidable (_ ∨ _))

theorem finish_not_mem_replay (ds : List (Option Chat.ChunkDelta)) : .finish ∉ replay ds := by
  simp [replay, deltaInputs]

theorem received_delta (d : Option Chat.ChunkDelta) (is : List Input) :
    received (d.toList.flatMap deltaInputs ++ is) = contentIn [d] ++ received is := by
  cases d with
  | none => rfl
  | some d =>
    obtain ⟨role, content, reasoning, toolCalls⟩ := d
    cases content <;> cases toolCalls <;>
      simp [deltaInputs, received, said, contentIn, Chat.Chunk.ofDelta]

theorem arrivals_delta (d : Option Chat.ChunkDelta) (is : List Input) :
    arrivals (d.toList.flatMap deltaInputs ++ is) = deltaArrivals d ++ arrivals is := by
  cases d with
  | none => rfl
  | some d =>
    obtain ⟨role, content, reasoning, toolCalls⟩ := d
    cases content <;> cases toolCalls <;>
      simp [deltaInputs, arrivals, arrivalsOf, deltaArrivals, contentIn, fragmentsIn,
        Chat.Chunk.ofDelta]

theorem received_replay (ds : List (Option Chat.ChunkDelta)) :
    received (replay ds) = contentIn ds := by
  rw [replay, received]
  induction ds with
  | nil => rfl
  | cons d ds ih => rw [List.flatMap_cons, received_delta, ih, ← contentIn_cons]

theorem arrivals_replay (ds : List (Option Chat.ChunkDelta)) :
    arrivals (replay ds) = ds.flatMap deltaArrivals := by
  rw [replay, arrivals]
  induction ds with
  | nil => rfl
  | cons d ds ih => rw [List.flatMap_cons, arrivals_delta, ih, List.flatMap_cons]

theorem fragmentsOf_append (as bs : List Arrival) :
    fragmentsOf (as ++ bs) = fragmentsOf as ++ fragmentsOf bs := by
  induction as with
  | nil => rfl
  | cons a as ih => cases a <;> simp [fragmentsOf, ih]

theorem fragmentsOf_map (fs : List Chat.CallFragment) : fragmentsOf (fs.map .fragment) = fs := by
  induction fs with
  | nil => rfl
  | cons f fs ih => exact congrArg (f :: ·) ih

theorem fragmentsOf_replay (ds : List (Option Chat.ChunkDelta)) :
    fragmentsOf (arrivals (replay ds)) = fragmentsIn ds := by
  rw [arrivals_replay]
  induction ds with
  | nil => rfl
  | cons d ds ih =>
    have hother : fragmentsOf (if contentIn [d] = [] then [] else [.other]) = [] := by
      split <;> rfl
    rw [List.flatMap_cons, fragmentsOf_append, ih, deltaArrivals, fragmentsOf_append, hother,
      fragmentsOf_map, List.nil_append, ← fragmentsIn_cons]

/-! ## Pieces in turn, in deltas -/

section
variable {b b' : Bool} {ps : List Piece} {as : List Arrival} (supply : Supply)

theorem led_fragments (h : Paced b ps b') (hl : Led b' as) (n : Nat) :
    Led b ((Piece.fragments supply n ps).map .fragment ++ as) := by
  induction h generalizing n with
  | nil hb => exact hl.mono hb
  | text s _ ih => exact (ih hl n).mono (by simp)
  | header slot id? name _ ih => cases id? <;> exact ⟨.inl rfl, ih hl _⟩
  | argument slot s _ ih => exact ⟨.inr rfl, ih hl n⟩

theorem led_behind_content (h : Paced b ps b') (hl : Led b' as) {n : Nat}
    (hc : Piece.content ps ≠ [])
    (hf : (Piece.fragments supply n ps).head?.all (·.name?.isSome) = true) :
    Led false ((Piece.fragments supply n ps).map .fragment ++ as) := by
  -- arguments in front of all content are the only case in which the fragments have no header first
  cases h with
  | nil _ => exact absurd rfl hc
  | text s h => exact led_fragments supply h hl n
  | header slot id? name h => cases id? <;> exact ⟨.inl rfl, led_fragments supply h hl _⟩
  | argument slot s h => exact absurd hf (by simp [Piece.fragments, Chat.CallFragment.name?])

theorem led_delta (h : Paced b ps b') (hl : Led b' as) {n : Nat}
    (hu : Unmixed (Piece.delta supply n ps)) :
    Led b (deltaArrivals (Piece.delta supply n ps) ++ as) := by
  rw [Unmixed, contentIn_delta, fragmentsIn_delta] at hu
  rw [deltaArrivals, contentIn_delta, fragmentsIn_delta, List.append_assoc]
  by_cases hc : Piece.content ps = []
  · rw [if_pos hc]
    exact led_fragments supply h hl n
  · rw [if_neg hc]
    exact led_behind_content supply h hl hc (hu.resolve_left hc)

theorem led_feed {σ : Type} (a : Parser σ) {st : σ} {seen : String} {xs : List String}
    (h : Turns b (a.finds st seen xs)) (hu : ∀ d ∈ a.feed supply st seen xs, Unmixed d) :
    Led b ((a.feed supply st seen xs).flatMap deltaArrivals) := by
  induction xs generalizing st seen b with
  | nil => trivial
  | cons x xs ih =>
    obtain ⟨b', hpaced, hturns⟩ := h
    obtain ⟨hd, hds⟩ := List.forall_mem_cons.mp hu
    exact led_delta supply hpaced (ih hturns hds) hd

end

/-! ## Calls that are read from a replay -/

def input? (tools : List Tool) (r : Received) : Option (String × String) :=
  (native? r).map fun n => (n.name, streamedArguments tools n.name n.text)

theorem nativeInputs_eq (c : Setting) (rs : List Received) :
    nativeInputs c (rs.filterMap native?) = rs.filterMap (input? c.tools) := by
  rw [nativeInputs, List.map_filterMap]
  rfl

theorem streamedArguments_trimEnd (tools : List Tool) (name : String) (t : List Char) :
    streamedArguments tools name (Text.trimEnd t) = streamedArguments tools name t := by
  have hquote : (Text.trimEnd t).head? = some '"' ↔ t.head? = some '"' := by
    cases t with
    | nil => rfl
    | cons c t =>
      rw [Text.trimEnd_cons]
      split
      · next h =>
        have hc : c ≠ '"' := by rintro rfl; exact absurd h.1 (by decide)
        simp [hc]
      · rfl
  have hread : readStreamed (Text.trimEnd t) = readStreamed t := by
    simp only [readStreamed, Text.trim_trimEnd, hquote]
  rw [streamedArguments, streamedArguments, hread, Text.trim_trimEnd]

theorem input?_gist (tools : List Tool) (r : Received) :
    input? tools r.trimmed.anonymous = input? tools r := by
  obtain ⟨index, id, name, arguments⟩ := r
  unfold input? native?
  cases id with
  | none => rfl
  | some id =>
    cases hn : filled (some name) with
    | none => simp [Received.trimmed, Received.anonymous, hn]
    | some name' =>
      simp [Received.trimmed, Received.anonymous, hn, streamedArguments_trimEnd]

/-- **Calls in a replay.** Where the content opens no markup and no delta is mixed, a client reads the
calls that the parser has found. -/
theorem callsOf_replay (d : Dialect) (c : Setting) (supply : Supply) {xs : List String}
    (hz : Markless (contentIn (d.deltas supply xs))) (hu : ∀ e ∈ d.deltas supply xs, Unmixed e) :
    callsOf (blocksOf (run c (replay (d.deltas supply xs) ++ [.finish]) initial).1) =
      (callsIn (fragmentsIn (d.deltas supply xs))).filterMap (input? c.tools) := by
  rw [← nativeInputs_eq, ← fragmentsOf_replay]
  refine callsOf_led c (finish_not_mem_replay _) ?_ ?_ ?_
  · rwa [received_replay]
  · rw [fragmentsOf_replay]
    exact d.numbered_deltas supply xs
  · rw [arrivals_replay]
    exact led_feed supply d.parser (d.turns_finds xs) hu

end ChatGateway.Answer.Stream
