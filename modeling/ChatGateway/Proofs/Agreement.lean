import ChatGateway.Proofs.Conservation

/-!
# A stream and a whole reply agree

The same content ends in the same calls whether it is streamed or answered as a whole, with the
same text between them but for white space, and for the same reason. Both are read as a list of
marks: the characters of texts that are not white space, and the names and inputs of calls.
-/

namespace ChatGateway.Answer.Stream

open Markup Messages

/-! ## What is compared -/

/-- A text without its white space. -/
def ink (t : List Char) : List Char := t.filter fun ch => !Text.isBlank ch

def callsOf : List Shown → List (String × String)
  | [] => []
  | .toolUse _ name input :: bs => (name, input) :: callsOf bs
  | _ :: bs => callsOf bs

/-- A text in front of the first of some texts. -/
def ahead (t : List Char) : List (List Char) → List (List Char)
  | [] => [t]
  | g :: gs => (t ++ g) :: gs

/-- The texts without white space in front of the first call, between calls and behind the last. -/
def gaps : List Shown → List (List Char)
  | [] => [[]]
  | .text t :: bs => ahead (ink t.toList) (gaps bs)
  | .thinking _ _ :: bs => gaps bs
  | .toolUse _ _ _ :: bs => [] :: gaps bs

def Shown.ofReply : ReplyBlock → Shown
  | .text t => .text t
  | .thinking t s => .thinking t (s.getD "")
  | .toolUse id name input => .toolUse id name input.text

def replyCalls : List ReplyBlock → List (String × Json.Value)
  | [] => []
  | .toolUse _ name input :: bs => (name, input) :: replyCalls bs
  | _ :: bs => replyCalls bs

theorem callsOf_ofReply (bs : List ReplyBlock) :
    callsOf (bs.map .ofReply) = (replyCalls bs).map fun (name, input) => (name, input.text) := by
  induction bs with
  | nil => rfl
  | cons b bs ih =>
    cases b with
    | text t => exact ih
    | thinking t s => exact ih
    | toolUse id name input => exact congrArg ((name, input.text) :: ·) ih

/-! ## Marks -/

/-- A part of an answer that white space and the split into blocks have no effect on. -/
inductive Mark where
  | ink (ch : Char)
  | name (name : String)
  | input (input : String)
deriving DecidableEq, Repr

def inkMarks (t : List Char) : List Mark := (ink t).map .ink

theorem inkMarks_append (t u : List Char) : inkMarks (t ++ u) = inkMarks t ++ inkMarks u := by
  simp [inkMarks, ink]

theorem ink_dropWhile (t : List Char) : ink (t.dropWhile Text.isBlank) = ink t := by
  induction t with
  | nil => rfl
  | cons ch t ih =>
    cases h : Text.isBlank ch with
    | true => rw [List.dropWhile_cons_of_pos h, ih]; simp [ink, h]
    | false => rw [List.dropWhile_cons_of_neg (by simp [h])]

theorem ink_reverse (t : List Char) : ink t.reverse = (ink t).reverse := List.filter_reverse

theorem ink_trim (t : List Char) : ink (Text.trim t) = ink t := by
  rw [Text.trim, Text.trimEnd, Text.trimStart, ink_reverse, ink_dropWhile, ink_reverse,
    ink_dropWhile, List.reverse_reverse]

def Shown.marks : Shown → List Mark
  | .text t => inkMarks t.toList
  | .thinking _ _ => []
  | .toolUse _ name input => [.name name, .input input]

def marks (bs : List Shown) : List Mark := bs.flatMap Shown.marks

theorem marks_cons (b : Shown) (bs : List Shown) : marks (b :: bs) = b.marks ++ marks bs := rfl

theorem marks_append (as bs : List Shown) : marks (as ++ bs) = marks as ++ marks bs :=
  List.flatMap_append

def markedCalls : List Mark → List (String × String)
  | .name name :: .input input :: ms => (name, input) :: markedCalls ms
  | _ :: ms => markedCalls ms
  | [] => []

theorem markedCalls_ink (t : List Char) (ms : List Mark) :
    markedCalls (t.map .ink ++ ms) = markedCalls ms := by
  induction t with
  | nil => rfl
  | cons ch t ih => exact ih

theorem markedCalls_marks (bs : List Shown) : markedCalls (marks bs) = callsOf bs := by
  induction bs with
  | nil => rfl
  | cons b bs ih =>
    rw [marks_cons]
    cases b with
    | text t => exact (markedCalls_ink _ _).trans ih
    | thinking t s => exact ih
    | toolUse id name input => exact congrArg ((name, input) :: ·) ih

def markedGaps : List Mark → List (List Char)
  | [] => [[]]
  | .ink ch :: ms => ahead [ch] (markedGaps ms)
  | .name _ :: ms => [] :: markedGaps ms
  | .input _ :: ms => markedGaps ms

theorem markedGaps_ne_nil (ms : List Mark) : markedGaps ms ≠ [] := by
  induction ms with
  | nil => simp [markedGaps]
  | cons m ms ih =>
    cases m with
    | ink ch =>
      obtain ⟨g, gs, he⟩ := List.exists_cons_of_ne_nil ih
      simp [markedGaps, he, ahead]
    | name n => simp [markedGaps]
    | input t => exact ih

theorem markedGaps_ink (t : List Char) (ms : List Mark) :
    markedGaps (t.map .ink ++ ms) = ahead t (markedGaps ms) := by
  obtain ⟨g, gs, he⟩ := List.exists_cons_of_ne_nil (markedGaps_ne_nil ms)
  induction t with
  | nil => simp [he, ahead]
  | cons ch t ih =>
    rw [List.map_cons, List.cons_append, markedGaps, ih, he]
    simp [ahead]

theorem markedGaps_marks (bs : List Shown) : markedGaps (marks bs) = gaps bs := by
  induction bs with
  | nil => rfl
  | cons b bs ih =>
    rw [marks_cons]
    cases b with
    | text t =>
      rw [gaps, ← ih]
      exact markedGaps_ink _ _
    | thinking t s => exact ih
    | toolUse id name input => exact congrArg ([] :: ·) ih

/-! ## The marks of events -/

def eventMarks : Event → List Mark
  | .blockStart _ (.toolUse _ name _) => [.name name]
  | .blockDelta _ (.text t) => inkMarks t.toList
  | .blockDelta _ (.inputJson t) => [.input t]
  | _ => []

theorem texts_marks (i : Nat) (ts : List String) :
    ((ts.map Delta.text).map (Event.blockDelta i)).flatMap eventMarks =
      inkMarks (joined ts).toList := by
  induction ts with
  | nil => rfl
  | cons t ts ih =>
    rw [joined_cons, String.toList_append, inkMarks_append, ← ih]
    rfl

theorem add_texts (t : String) (ts : List String) :
    (ts.map Delta.text).foldl Shown.add (.text t) = .text (t ++ joined ts) := by
  induction ts generalizing t with
  | nil => simp [joined]
  | cons u ts ih =>
    rw [List.map_cons, List.foldl_cons, Shown.add, ih, joined_cons, String.append_assoc]

theorem add_to_thinking (ds : List Delta) (t s : String) :
    ∃ t' s', ds.foldl Shown.add (.thinking t s) = .thinking t' s' := by
  induction ds generalizing t s with
  | nil => exact ⟨t, s, rfl⟩
  | cons d ds ih => cases d <;> exact ih _ _

theorem complete_marks {w : Written} (h : Complete w) (i : Nat) :
    (w.events i).flatMap eventMarks = w.shown.marks := by
  cases h with
  | @text ts _ =>
    rw [Written.shown, Shown.ofStart, add_texts, String.empty_append, Shown.marks, ← texts_marks i]
    simp [Written.events, Written.opened, eventMarks]
  | @thinking ts _ =>
    obtain ⟨t, s, he⟩ := add_to_thinking
      (ts.map Delta.thinking ++ [.signature (signature (joined ts))]) "" ""
    rw [Written.shown, Shown.ofStart, Option.getD_none, he]
    simp [Written.events, Written.opened, eventMarks, Shown.marks]
  | toolUse id name input =>
    simp [Written.call, Written.events, Written.opened, Written.shown, Shown.ofStart, Shown.add,
      eventMarks, Shown.marks]

theorem numbered_marks {ws : List Written} (h : ∀ w ∈ ws, Complete w) (n : Nat) :
    (numbered n ws).flatMap eventMarks = marks (ws.map Written.shown) := by
  induction ws generalizing n with
  | nil => rfl
  | cons w ws ih =>
    obtain ⟨hw, hws⟩ := List.forall_mem_cons.mp h
    rw [numbered, List.flatMap_append, complete_marks hw, ih hws]
    rfl

theorem marks_blocksOf {h : List Event} (he : Ended h) :
    marks (blocksOf h) = h.flatMap eventMarks := by
  obtain ⟨m, ws, e, u, hws, rfl, hb⟩ := blocksOf_ended he
  rw [hb, ← numbered_marks hws 0]
  simp [eventMarks]

/-! ## The marks of what is drained -/

def hasCall (ms : List Mark) : Bool := ms.any fun m => m matches .name _

theorem hasCall_append (ms ns : List Mark) : hasCall (ms ++ ns) = (hasCall ms || hasCall ns) :=
  List.any_append

theorem hasCall_ink (t : List Char) : hasCall (inkMarks t) = false := by
  simp [hasCall, inkMarks]

section
variable (c : Setting)

def callMarks (call : Call) : List Mark := [.name call.name, .input (inputText c call)]

def segmentMarks : Segment → List Mark
  | .text t => inkMarks t
  | .calls cs => cs.flatMap (callMarks c)

def drainMarks (d : Drained) : List Mark :=
  d.segments.flatMap (segmentMarks c) ++ inkMarks d.settled

theorem drainMarks_after (d : Drained) (ss : List Segment) :
    drainMarks c (d.after ss) = ss.flatMap (segmentMarks c) ++ drainMarks c d := by
  simp [drainMarks, Drained.after]

theorem drainMarks_behind (t : List Char) (d : Drained) :
    drainMarks c (d.behind t) = inkMarks t ++ drainMarks c d := by
  obtain ⟨segments, settled, held⟩ := d
  cases segments with
  | nil => exact inkMarks_append t settled
  | cons g ss =>
    cases g with
    | text u => simp [drainMarks, Drained.behind, segmentMarks, inkMarks_append]
    | calls cs => simp [drainMarks, Drained.behind, segmentMarks]

theorem drainMarks_append (z y : List Char) :
    drainMarks c (drain c.tools (z ++ y)) = drainMarks c (drain c.tools z) ++
      drainMarks c (drain c.tools ((drain c.tools z).held ++ y)) := by
  rw [drain_append, drainMarks_after, drainMarks_behind, ← List.append_assoc]
  rfl

theorem held_append (z y : List Char) :
    (drain c.tools (z ++ y)).held = (drain c.tools ((drain c.tools z).held ++ y)).held := by
  rw [drain_append, Drained.after, Drained.behind]
  split <;> rfl

/-! ## Steps and their marks -/

/-- A step emits events with these marks, unless a native call is open. -/
structure Prints (f : Emit) (ms : List Mark) : Prop where
  noCall : ∀ s, NoCall s → NoCall (f s).2
  marks : ∀ s, NoCall s → (f s).1.flatMap eventMarks = ms
  called : ∀ s, (f s).2.calledTool = (s.calledTool || hasCall ms)
  reason : ∀ s, (f s).2.finishReason = s.finishReason

namespace Prints

theorem nothing : Prints .nothing [] where
  noCall _ h := h
  marks _ _ := rfl
  called _ := (Bool.or_false _).symm
  reason _ := rfl

theorem andThen {f g : Emit} {ms ns : List Mark} (hf : Prints f ms) (hg : Prints g ns) :
    Prints (f.andThen g) (ms ++ ns) where
  noCall s h := hg.noCall _ (hf.noCall s h)
  marks s h := by
    rw [Emit.andThen, List.flatMap_append, hf.marks s h, hg.marks _ (hf.noCall s h)]
  called s := by rw [Emit.andThen, hg.called, hf.called, hasCall_append, Bool.or_assoc]
  reason s := (hg.reason _).trans (hf.reason s)

theorem each {α : Type} {f : α → Emit} {ms : α → List Mark} (hf : ∀ a, Prints (f a) (ms a))
    (as : List α) : Prints (.each f as) (as.flatMap ms) := by
  induction as with
  | nil => exact nothing
  | cons a as ih => exact (hf a).andThen ih

end Prints

theorem closeBlock_marks {s : State} (h : NoCall s) :
    (closeBlock c s).1.flatMap eventMarks = [] := by
  unfold closeBlock
  split
  · rfl
  · next i b hb =>
    cases b with
    | text => rfl
    | thinking said => rfl
    | toolUse slot id name arguments => exact absurd hb (h i slot id name arguments)

theorem prints_closeBlock : Prints (closeBlock c) [] where
  noCall s _ := by
    rw [closeBlock_snd]
    exact noCall_of_none rfl
  marks _ h := closeBlock_marks c h
  called s := by rw [closeBlock_snd]; exact (Bool.or_false _).symm
  reason s := by rw [closeBlock_snd]

theorem prints_say (t : List Char) : Prints (say c t) (inkMarks t) where
  noCall _ h := noCall_say c t h
  marks s h := by
    rcases say_cases c t s with ⟨rfl, he⟩ | ⟨i, -, -, he⟩ | ⟨-, -, he⟩
    · rw [he]
      rfl
    · rw [he]
      simp [eventMarks]
    · rw [he, List.flatMap_append, closeBlock_marks c h]
      simp [eventMarks]
  called s := by
    obtain ⟨b, n, he⟩ := say_snd c t s
    rw [he, hasCall_ink, Bool.or_false]
  reason s := by
    obtain ⟨b, n, he⟩ := say_snd c t s
    rw [he]

theorem prints_embedded (call : Call) : Prints (embedded c call) (callMarks c call) where
  noCall s _ := by
    rw [embedded_eq]
    exact noCall_of_none rfl
  marks s h := by
    rw [embedded_eq, List.flatMap_append, closeBlock_marks c h]
    rfl
  called s := by
    rw [embedded_eq]
    exact (Bool.or_true _).symm
  reason s := by rw [embedded_eq]

theorem prints_segment (g : Segment) : Prints (segment c g) (segmentMarks c g) := by
  cases g with
  | text t => exact prints_say c t
  | calls cs => exact .each (prints_embedded c) cs

theorem prints_deliver (d : Drained) : Prints (deliver c d) (drainMarks c d) :=
  (Prints.each (prints_segment c) d.segments).andThen (prints_say c d.settled)

theorem prints_start : Prints (start c) [] where
  noCall s h := by rwa [start_snd]
  marks s _ := by
    unfold start
    split <;> rfl
  called s := by rw [start_snd]; exact (Bool.or_false _).symm
  reason s := by rw [start_snd]

/-! ## Runs of texts -/

/-- Starts and chunks that carry nothing but text, usage and reasons. -/
def Textual (is : List Input) : Prop :=
  ∀ i ∈ is, i = .start ∨ ∃ k, i = .chunk k ∧ Plain k

def reasonGiven : List Input → Option String
  | [] => none
  | .chunk k :: is => (reasonGiven is).or (reasonOf k)
  | _ :: is => reasonGiven is

theorem deliver_nothing (held : List Char) (s : State) :
    deliver c ⟨[], [], held⟩ s = ([], s) := rfl

/-- Behind a text that was drained, content is drained together with what was left over. -/
theorem content_of_held {z : List Char} {s : State} (hn : NoCall s)
    (hb : s.buffer = (drain c.tools z).held) (t : List Char) :
    content c t s = deliver c (drain c.tools (s.buffer ++ t))
      { s with buffer := (drain c.tools (s.buffer ++ t)).held } := by
  by_cases ht : t = []
  · subst ht
    rw [List.append_nil, hb, drain_held, deliver_nothing, ← hb]
    rfl
  · rw [content_eq c ht, Emit.andThen, leaveCall_of_noCall c hn]
    rfl

/-- What is known in the middle of a run that was given the text `z` and the reason `reason`. -/
structure Midway (h : List Event) (s : State) (z : List Char) (reason : Option String) : Prop where
  finished : s.finished = false
  noCall : NoCall s
  buffer : s.buffer = (drain c.tools z).held
  marks : h.flatMap eventMarks = drainMarks c (drain c.tools z)
  called : s.calledTool = hasCall (drainMarks c (drain c.tools z))
  reason : s.finishReason = reason

variable {c}

section
variable {h : List Event} {s : State} {z : List Char} {reason : Option String}

theorem Midway.start (hm : Midway c h s z reason) :
    Midway c (h ++ (start c s).1) (start c s).2 z reason := by
  have hmarks := (prints_start c).marks s hm.noCall
  rw [start_snd]
  exact { hm with
    noCall := hm.noCall
    marks := by rw [List.flatMap_append, hmarks, List.append_nil, hm.marks] }

theorem note_eq (k : Chat.Chunk) (s : State) :
    ∃ u, note k s = { s with usage := u, finishReason := (reasonOf k).or s.finishReason } := by
  unfold note
  cases k.usage with
  | none => exact ⟨s.usage, rfl⟩
  | some u => exact ⟨(record u s).usage, rfl⟩

theorem Midway.note (hm : Midway c h s z reason) (k : Chat.Chunk) :
    Midway c h (note k s) z ((reasonOf k).or reason) := by
  obtain ⟨u, he⟩ := note_eq k s
  rw [he]
  exact { hm with
    noCall := hm.noCall
    reason := by rw [hm.reason] }

theorem Midway.content (hm : Midway c h s z reason) (t : List Char) :
    Midway c (h ++ (content c t s).1) (content c t s).2 (z ++ t) reason := by
  have hflags := (kept_flags c s.started false).content t [] s ⟨rfl, hm.finished⟩
  -- the whole text drains like `z`, and then like what `z` left over with `t` behind it
  have hmarks := drainMarks_append c z t
  have hheld := held_append c z t
  rw [← hm.buffer] at hmarks hheld
  have he := content_of_held c hm.noCall hm.buffer t
  rw [he] at hflags ⊢
  generalize drain c.tools (s.buffer ++ t) = d at hmarks hheld hflags ⊢
  have hp := prints_deliver c d
  exact {
    finished := hflags.2
    noCall := hp.noCall _ hm.noCall
    buffer := by rw [blind_deliver, hheld]
    marks := by rw [List.flatMap_append, hm.marks, hp.marks { s with buffer := d.held } hm.noCall,
      hmarks]
    called := by rw [hp.called, hm.called, hmarks, hasCall_append]
    reason := (hp.reason _).trans hm.reason }

theorem Midway.chunk (hm : Midway c h s z reason) {k : Chat.Chunk} (hk : Plain k) :
    Midway c (h ++ (chunk c k s).1) (chunk c k s).2 (z ++ (said k).toList)
      ((reasonOf k).or reason) := by
  rw [chunk_of_plain c hk hm.finished, Emit.andThen, ← List.append_assoc]
  exact (hm.start.note k).content (said k).toList

theorem midway_run {is : List Input} (hi : Textual is) (hm : Midway c h s z reason) :
    Midway c (h ++ (run c is s).1) (run c is s).2 (z ++ received is)
      ((reasonGiven is).or reason) := by
  induction is generalizing h s z reason with
  | nil => simpa [run, Emit.each, Emit.nothing, received, reasonGiven] using hm
  | cons i is ih =>
    obtain ⟨hhead, htail⟩ := List.forall_mem_cons.mp hi
    rw [run_cons, Emit.andThen, ← List.append_assoc]
    rcases hhead with rfl | ⟨k, rfl, hk⟩
    · exact ih htail hm.start
    · have h := ih htail (hm.chunk hk)
      rw [received, reasonGiven, ← List.append_assoc, Option.or_assoc]
      exact h

theorem midway_initial : Midway c [] initial [] none := by
  have hcut : Text.cutAny? openings [] = none := by decide
  have hheld : Text.splitHeld openings [] = ([], []) := by decide
  have hd : drain c.tools [] = ⟨[], [], []⟩ := by rw [drain_of_none c.tools hcut, hheld]
  exact {
    finished := rfl
    noCall := noCall_of_none rfl
    buffer := by rw [hd]; rfl
    marks := by rw [hd]; rfl
    called := by rw [hd]; rfl
    reason := rfl }

variable (c) in
def lastText (held : List Char) : Emit :=
  (start c).andThen ((Emit.change fun s => { s with buffer := [] }).andThen
    ((say c held).andThen (closeBlock c)))

theorem prints_lastText (held : List Char) : Prints (lastText c held) (inkMarks held) := by
  have hclear : Prints (.change fun s => { s with buffer := [] }) [] :=
    { noCall := fun _ h => h
      marks := fun _ _ => rfl
      called := fun _ => (Bool.or_false _).symm
      reason := fun _ => rfl }
  have h := (prints_start c).andThen
    (hclear.andThen ((prints_say c held).andThen (prints_closeBlock c)))
  rwa [List.append_nil] at h

theorem lastWords_of_held {z : List Char} {s : State} (hb : s.buffer = (drain c.tools z).held) :
    lastWords c s = lastText c (drain c.tools z).held s := by
  have hstart : (start c s).2.buffer = (drain c.tools z).held := by rw [start_snd]; exact hb
  have hsettle : settle c (start c s).2 = ([], (start c s).2) := by
    rw [settle_eq, hstart, drain_held, deliver_nothing, ← hstart]
  have hflush : flush c (start c s).2 =
      say c (drain c.tools z).held { (start c s).2 with buffer := [] } := by rw [flush, hstart]
  simp only [lastWords, lastText, Emit.andThen, hsettle, hflush, List.nil_append]
  rfl

theorem Midway.finish (hm : Midway c h s z reason) :
    (h ++ (finish c s).1).flatMap eventMarks =
        drainMarks c (drain c.tools z) ++ inkMarks (drain c.tools z).held ∧
      ∃ p u, h ++ (finish c s).1 = p ++ [.messageDelta ⟨some (StopReason.final reason
        (hasCall (drainMarks c (drain c.tools z)))).word, none⟩ u, .messageStop] := by
  have hp := @prints_lastText c (drain c.tools z).held
  have hmarks := hp.marks { s with finished := true } hm.noCall
  have hcalled := hp.called { s with finished := true }
  have hreason := hp.reason { s with finished := true }
  rw [finish_of_open c hm.finished, @lastWords_of_held c z { s with finished := true } hm.buffer]
  generalize lastText c (drain c.tools z).held { s with finished := true } = e
    at hmarks hcalled hreason
  refine ⟨?_, h ++ e.1, ⟨e.2.usage.outputTokens, some e.2.usage.inputTokens,
    e.2.usage.cacheCreation, e.2.usage.cacheRead⟩, ?_⟩
  · rw [List.flatMap_append, List.flatMap_append, hmarks, hm.marks]
    simp [closing, eventMarks]
  · rw [closing, hcalled, hreason, hasCall_ink, Bool.or_false, hm.called, hm.reason,
      List.append_assoc]

end

/-! ## Whole replies -/

theorem textBlocks_marks (t : List Char) :
    marks ((textBlocks t).map .ofReply) = inkMarks t := by
  have h : inkMarks (Text.trim t) = inkMarks t := congrArg (List.map Mark.ink) (ink_trim t)
  rw [textBlocks, ← h]
  by_cases he : Text.trim t = []
  · simp [he, marks, inkMarks, ink]
  · simp [he, marks, Shown.ofReply, Shown.marks]

theorem callBlocks_marks (n : Nat) (cs : List Call) :
    marks (((issueAll c.supply n cs).map fun (id, call) =>
      callBlock c.tools id call).map .ofReply) = cs.flatMap (callMarks c) := by
  induction cs generalizing n with
  | nil => rfl
  | cons call cs ih =>
    rw [issueAll, List.map_cons, List.map_cons, List.flatMap_cons, ← ih]
    rfl

theorem segmentBlocks_marks (n : Nat) (ss : List Segment) :
    marks ((segmentBlocks c.supply c.tools n ss).map .ofReply) = ss.flatMap (segmentMarks c) := by
  induction ss generalizing n with
  | nil => rfl
  | cons g ss ih =>
    cases g with
    | text t =>
      rw [segmentBlocks, List.map_append, marks_append, textBlocks_marks, ih]
      rfl
    | calls cs =>
      rw [segmentBlocks, List.map_append, marks_append, callBlocks_marks, ih]
      rfl

theorem contentBlocks_marks (z : List Char) :
    marks ((contentBlocks c.supply c.tools z).map .ofReply) =
      drainMarks c (drain c.tools z) ++ inkMarks (drain c.tools z).held := by
  rw [contentBlocks]
  simp only [segmentBlocks_marks, List.flatMap_append]
  simp [drainMarks, segmentMarks, inkMarks_append]

theorem any_isCall (bs : List ReplyBlock) :
    bs.any isCall = hasCall (marks (bs.map .ofReply)) := by
  induction bs with
  | nil => rfl
  | cons b bs ih =>
    rw [List.any_cons, ih, List.map_cons, marks_cons, hasCall_append]
    cases b with
    | text t => exact congrArg (· || _) (hasCall_ink _).symm
    | thinking t s => rfl
    | toolUse id name input => rfl

/-- The first choice of a reply has this content and this reason, no reasoning and no calls of its
own. -/
def Holds (r : Chat.Reply) (content : List Char) (reason : Option String) : Prop :=
  ∃ x, r.choices.head? = some x ∧ x.message.content.getD "" = String.ofList content ∧
    x.message.reasoning.getD "" = "" ∧ x.message.toolCalls.getD [] = [] ∧ x.finishReason = reason

theorem whole_of_holds {r : Chat.Reply} {z : List Char} {reason : Option String}
    (hr : Holds r z reason) (model : String) :
    marks ((whole c.supply c.tools model r).content.map .ofReply) =
        drainMarks c (drain c.tools z) ++ inkMarks (drain c.tools z).held ∧
      (whole c.supply c.tools model r).stopReason = some (StopReason.final reason
        (hasCall (drainMarks c (drain c.tools z)))).word := by
  obtain ⟨x, hx, hcontent, hreasoning, hcalls, rfl⟩ := hr
  have hnone : reasoningBlocks x.message.reasoning = [] := by
    unfold reasoningBlocks
    split
    · next r h =>
      rw [h, Option.getD_some] at hreasoning
      rw [hreasoning]
      rfl
    · rfl
  have hblocks : messageBlocks c.supply c.tools x.message = contentBlocks c.supply c.tools z := by
    rw [messageBlocks, hnone, hcontent, hcalls]
    simp
  have hmarks := @contentBlocks_marks c z
  have hany := any_isCall (contentBlocks c.supply c.tools z)
  rw [hmarks, hasCall_append, hasCall_ink, Bool.or_false] at hany
  simp only [whole, hx, Option.elim_some, hblocks, Option.bind_some, hany]
  refine ⟨?_, trivial⟩
  -- a reply without blocks gets an empty text, which has no marks
  split
  · next he =>
    rw [List.isEmpty_iff] at he
    rw [he] at hmarks
    exact hmarks
  · exact hmarks

/-! ## Agreement -/

variable (c)

/-- The marks of a message that was streamed in texts, and how it ends. -/
theorem streamed_marks {is : List Input} (hi : Textual is) :
    marks (blocksOf (run c (is ++ [.finish]) initial).1) =
        drainMarks c (drain c.tools (received is)) ++
          inkMarks (drain c.tools (received is)).held ∧
      ∃ p u, (run c (is ++ [.finish]) initial).1 = p ++
        [.messageDelta ⟨some (StopReason.final (reasonGiven is)
          (hasCall (drainMarks c (drain c.tools (received is))))).word, none⟩ u, .messageStop] := by
  have hm := midway_run hi (@midway_initial c)
  rw [List.nil_append, List.nil_append, Option.or_none] at hm
  have he : (run c (is ++ [.finish]) initial).1 =
      (run c is initial).1 ++ (finish c (run c is initial).2).1 := by rw [run_concat]; rfl
  rw [marks_blocksOf (ended_finish c is), he]
  exact hm.finish

/-- **A stream and a whole reply agree.** Content that is streamed in any chunks and content that is
answered as a whole end in the same calls, with the same text between them but for white space, and
for the same reason. An input is streamed as the text of its JSON, so it is the same again for a
client that reads back what was printed. -/
theorem stream_agrees {is : List Input} (hi : Textual is) {r : Chat.Reply}
    (hr : Holds r (received is) (reasonGiven is)) :
    callsOf (blocksOf (run c (is ++ [.finish]) initial).1) =
        (replyCalls (whole c.supply c.tools c.model r).content).map
          (fun (name, input) => (name, input.text)) ∧
      (∀ read : String → Option Json.Value,
        (∀ p ∈ replyCalls (whole c.supply c.tools c.model r).content,
          read p.2.text = some p.2) →
        (callsOf (blocksOf (run c (is ++ [.finish]) initial).1)).map
            (fun (name, input) => (name, read input)) =
          (replyCalls (whole c.supply c.tools c.model r).content).map
            (fun (name, input) => (name, some input))) ∧
      gaps (blocksOf (run c (is ++ [.finish]) initial).1) =
        gaps ((whole c.supply c.tools c.model r).content.map .ofReply) ∧
      ∃ p u, (run c (is ++ [.finish]) initial).1 = p ++
        [.messageDelta ⟨(whole c.supply c.tools c.model r).stopReason, none⟩ u, .messageStop] := by
  obtain ⟨hmarks, p, u, hend⟩ := streamed_marks c hi
  obtain ⟨hwhole, hstop⟩ := whole_of_holds (c := c) hr c.model
  -- both have the marks of the drained content, and then of what was left over
  have hsame : marks (blocksOf (run c (is ++ [.finish]) initial).1) =
      marks ((whole c.supply c.tools c.model r).content.map .ofReply) := hmarks.trans hwhole.symm
  have hcalls : callsOf (blocksOf (run c (is ++ [.finish]) initial).1) =
      (replyCalls (whole c.supply c.tools c.model r).content).map
        (fun (name, input) => (name, input.text)) := by
    rw [← markedCalls_marks, hsame, markedCalls_marks, callsOf_ofReply]
  refine ⟨hcalls, fun read hread => ?_, ?_, p, u, ?_⟩
  · rw [hcalls, List.map_map]
    refine List.map_congr_left fun q hq => ?_
    simp [hread q hq]
  · rw [← markedGaps_marks, hsame, markedGaps_marks]
  · rw [hend, hstop]

end

def textReply (t : String) : Chat.Reply :=
  ⟨"", "", 0, "", [⟨0, ⟨none, some t, none, none⟩, none⟩], none⟩

def splitCall : List Input :=
  [.start, .chunk (textChunk "so <tool"),
    .chunk (textChunk "_call><function=f></function></tool_call> ok")]

theorem stream_agrees_splitCall :
    (callsOf (blocksOf (run bare (splitCall ++ [.finish]) initial).1)).map
        (fun (name, input) => (name, Json.read input.toList)) = [("f", some (.obj []))] ∧
      gaps (blocksOf (run bare (splitCall ++ [.finish]) initial).1) =
        gaps ((whole bare.supply bare.tools bare.model (textReply
          "so <tool_call><function=f></function></tool_call> ok")).content.map .ofReply) := by
  have hi : Textual splitCall := by
    refine List.forall_mem_cons.mpr ⟨.inl rfl, List.forall_mem_cons.mpr ⟨?_, ?_⟩⟩
    · exact .inr ⟨_, rfl, (contentOnly_textChunk _).plain⟩
    · exact List.forall_mem_singleton.mpr (.inr ⟨_, rfl, (contentOnly_textChunk _).plain⟩)
  have hr : Holds (textReply "so <tool_call><function=f></function></tool_call> ok")
      (received splitCall) (reasonGiven splitCall) := ⟨_, rfl, by decide, rfl, rfl, rfl⟩
  obtain ⟨-, hread, hgaps, -⟩ := stream_agrees bare hi hr
  have hcalls : replyCalls (whole bare.supply bare.tools bare.model (textReply
      "so <tool_call><function=f></function></tool_call> ok")).content = [("f", .obj [])] := by
    decide +kernel
  rw [hcalls] at hread
  refine ⟨hread (fun s => Json.read s.toList) ?_, hgaps⟩
  decide +kernel

end ChatGateway.Answer.Stream
