import ChatGateway.Proofs.Routes
import Mathlib.Logic.Relation

/-!
# Conversations that grow

A conversation grows by messages, blocks and characters, at any place. No such step makes it smaller
(`Request.Grows.size_le`), so once no provider has room for it, none has again
(`growth_monotone`).
-/

namespace ChatGateway

/-! ## Growth -/

/-- Something is put in, or one item grows. -/
inductive Widens {α : Type} (grows : α → α → Prop) : List α → List α → Prop where
  | insert (front middle back : List α) : Widens grows (front ++ back) (front ++ middle ++ back)
  | within (front back : List α) {a a' : α} (h : grows a a') :
    Widens grows (front ++ a :: back) (front ++ a' :: back)

namespace Messages

inductive Block.Grows : Block → Block → Prop where
  | text (t more : String) : Grows (.text t) (.text (t ++ more))
  | thinking (t more : String) (signature : Option String) :
    Grows (.thinking t signature) (.thinking (t ++ more) signature)
  | resultText (useId t more : String) (isError : Option Bool) :
    Grows (.toolResult useId (.text t) isError) (.toolResult useId (.text (t ++ more)) isError)
  | resultBlocks (useId : String) (isError : Option Bool) {bs bs' : List Block}
    (h : Widens Grows bs bs') :
    Grows (.toolResult useId (.blocks bs) isError) (.toolResult useId (.blocks bs') isError)

inductive Content.Grows : Content → Content → Prop where
  | text (t more : String) : Grows (.text t) (.text (t ++ more))
  | blocks {bs bs' : List Block} (h : Widens Block.Grows bs bs') : Grows (.blocks bs) (.blocks bs')

inductive Message.Grows : Message → Message → Prop where
  | content (role : Role) {c c' : Content} (h : c.Grows c') : Grows ⟨role, c⟩ ⟨role, c'⟩

inductive SystemBlock.Grows : SystemBlock → SystemBlock → Prop where
  | text (kind t more : String) : Grows ⟨kind, t⟩ ⟨kind, t ++ more⟩

inductive System.Grows : System → System → Prop where
  | text (t more : String) : Grows (.text t) (.text (t ++ more))
  | blocks {bs bs' : List SystemBlock} (h : Widens SystemBlock.Grows bs bs') :
    Grows (.blocks bs) (.blocks bs')

/-- One step by which a conversation grows. What is not part of the conversation may change too, but
for the model and the wish to think. -/
inductive Request.Grows : Request → Request → Prop where
  | messages (r : Request) {ms : List Message} (h : Widens Message.Grows r.messages ms) :
    Grows r { r with messages := ms }
  | system (r : Request) {s s' : System} (hs : r.system = some s) (h : s.Grows s') :
    Grows r { r with system := some s' }
  | aside {r r' : Request} (messages : r'.messages = r.messages) (system : r'.system = r.system)
    (model : r'.model = r.model) (thinking : r'.thinking = r.thinking) : Grows r r'

end Messages

/-! ## Sums over lists -/

def total {α : Type} (f : α → Nat) (as : List α) : Nat := as.foldr (fun a n => f a + n) 0

theorem total_append {α : Type} (f : α → Nat) (as bs : List α) :
    total f (as ++ bs) = total f as + total f bs := by
  induction as with
  | nil => simp [total]
  | cons a as ih =>
    show f a + total f (as ++ bs) = f a + total f as + total f bs
    rw [ih, Nat.add_assoc]

theorem Widens.total_le {α : Type} {grows : α → α → Prop} {f : α → Nat} {as as' : List α}
    (hf : ∀ a a', grows a a' → f a ≤ f a') (h : Widens grows as as') :
    total f as ≤ total f as' := by
  cases h with
  | insert front middle back =>
    simp only [total_append]
    omega
  | within front back h =>
    rw [total_append, total_append]
    exact Nat.add_le_add_left (Nat.add_le_add_right (hf _ _ h) (total f back)) (total f front)

namespace Routing

open Messages Config

/-! ## Texts on lines -/

/-- What a part adds to a text in which the parts stand one on a line. -/
def lineSize {α : Type} (text? : α → Option String) (a : α) : Nat :=
  (text? a).elim 0 (·.length + 1)

theorem length_intercalate (ts : List String) :
    (String.intercalate "\n" ts).length = total (·.length + 1) ts - 1 := by
  induction ts with
  | nil => rfl
  | cons t ts ih =>
    by_cases hts : ts = []
    · simp [hts, total]
    · have hpos : 0 < total (·.length + 1) ts := by
        obtain ⟨u, us, rfl⟩ := List.exists_cons_of_ne_nil hts
        show 0 < u.length + 1 + total _ us
        omega
      have hsep : "\n".length = 1 := rfl
      rw [String.intercalate_cons_of_ne_nil hts, String.length_append, String.length_append, ih]
      show _ = t.length + 1 + total _ ts - 1
      omega

theorem length_lines {α : Type} (text? : α → Option String) (as : List α) :
    (String.intercalate "\n" (as.filterMap text?)).length = total (lineSize text?) as - 1 := by
  rw [length_intercalate]
  congr 1
  induction as with
  | nil => rfl
  | cons a as ih =>
    show _ = lineSize text? a + total (lineSize text?) as
    rw [← ih, lineSize]
    cases ha : text? a with
    | none => simp [ha]
    | some t => simp [ha, total]

theorem length_lines_le {α : Type} {grows : α → α → Prop} {text? : α → Option String}
    {as as' : List α} (hf : ∀ a a', grows a a' → lineSize text? a ≤ lineSize text? a')
    (h : Widens grows as as') :
    (String.intercalate "\n" (as.filterMap text?)).length ≤
      (String.intercalate "\n" (as'.filterMap text?)).length := by
  rw [length_lines, length_lines]
  exact Nat.sub_le_sub_right (h.total_le hf) 1

/-! ## One step -/

theorem lineSize_le {b b' : Block} (h : b.Grows b') :
    lineSize Block.text? b ≤ lineSize Block.text? b' := by
  cases h <;> simp [lineSize, Block.text?]

theorem blockSize_le {b b' : Block} (h : b.Grows b') : blockSize b ≤ blockSize b' := by
  cases h with
  | text t more => simp [blockSize]
  | thinking t more signature => simp [blockSize]
  | resultText useId t more isError => simp [blockSize, ResultContent.plain]
  | resultBlocks useId isError h => exact length_lines_le (fun _ _ => lineSize_le) h

theorem contentSize_le {c c' : Content} (h : c.Grows c') : contentSize c ≤ contentSize c' := by
  cases h with
  | text t more => simp [contentSize]
  | blocks h => exact h.total_le fun _ _ => blockSize_le

theorem plain_le {s s' : System} (h : s.Grows s') : s.plain.length ≤ s'.plain.length := by
  cases h with
  | text t more => simp [System.plain]
  | blocks h =>
    refine length_lines_le (fun b b' hb => ?_) h
    cases hb with
    | text kind t more =>
      by_cases hk : kind = "text"
      · simp [lineSize, hk]
      · simp [lineSize, hk]

theorem size_le {r r' : Request} (h : r.Grows r') : size r ≤ size r' := by
  cases h with
  | messages h =>
    refine Nat.add_le_add_left (h.total_le fun m m' hm => ?_) _
    cases hm with
    | content role hc => exact contentSize_le hc
  | system hs h =>
    unfold size
    rw [hs]
    exact Nat.add_le_add_right (plain_le h) _
  | aside messages system model thinking =>
    unfold size
    exact Nat.le_of_eq (by rw [messages, system])

theorem estimate_le {r r' : Request} (h : r.Grows r') : estimate r ≤ estimate r' :=
  Nat.div_le_div_right (size_le h)

theorem Fits.of_le {p : Config.Provider} {n n' : Nat} (h : n ≤ n') (hp : Fits p n') : Fits p n :=
  fun limit hl => Nat.le_trans h (hp limit hl)

theorem preferences_eq (c : Config) {r r' : Request} (hm : r'.model = r.model)
    (ht : r'.thinking = r.thinking) : preferences c r' = preferences c r := by
  unfold preferences Request.thinkingRequested
  rw [hm, ht]

theorem provider_eq_none_of_le {c : Config} {r r' : Request} (hm : r'.model = r.model)
    (ht : r'.thinking = r.thinking) (hle : estimate r ≤ estimate r') (h : provider c r = none) :
    provider c r' = none := by
  rw [provider_eq_none_iff] at h ⊢
  rw [preferences_eq c hm ht, hm]
  intro p hp hf
  exact h p hp (hf.of_le hle)

theorem addressed_eq {r r' : Request} (h : r.Grows r') :
    r'.model = r.model ∧ r'.thinking = r.thinking := by
  cases h with
  | messages h => exact ⟨rfl, rfl⟩
  | system hs h => exact ⟨rfl, rfl⟩
  | aside messages system model thinking => exact ⟨model, thinking⟩

/-! ## Any number of steps -/

/-- **Growth is monotone.** However a conversation grows, its estimate does not go down, and where
it went nowhere it goes nowhere still. -/
theorem growth_monotone {r r' : Request} (h : Relation.ReflTransGen Request.Grows r r') :
    estimate r ≤ estimate r' ∧ ∀ c : Config, routed c r = none → routed c r' = none := by
  induction h with
  | refl => exact ⟨Nat.le_refl _, fun c hc => hc⟩
  | tail _ step ih =>
    obtain ⟨hm, ht⟩ := addressed_eq step
    refine ⟨Nat.le_trans ih.1 (estimate_le step), fun c hc => ?_⟩
    rw [routed, Option.map_eq_none_iff]
    exact provider_eq_none_of_le hm ht (estimate_le step) (Option.map_eq_none_iff.mp (ih.2 c hc))

def narrow : Config := { tiers with providers := [localProvider "full" "opus" (some 0)] }

def looked (found : List Block) : Request :=
  { question "opus" "Why?" none with
    messages := [⟨.user, .text "Why?"⟩, ⟨.user, .blocks [.toolResult "t" (.blocks found) none]⟩] }

theorem growth_monotone_looked :
    Relation.ReflTransGen Request.Grows (question "opus" "Why?" none)
        (looked [.text "It is.", .text "So"]) ∧
      estimate (looked [.text "It is.", .text "So"]) = 3 ∧
      routed narrow (looked [.text "It is.", .text "So"]) = none := by
  have hasked : Request.Grows (question "opus" "Why?" none) (looked [.text "So"]) := by
    apply Request.Grows.messages
    exact .insert [_] [_] []
  have hfound : Request.Grows (looked [.text "So"]) (looked [.text "It is.", .text "So"]) := by
    apply Request.Grows.messages
    refine .within [_] [] (.content .user (.blocks ?_))
    exact .within [] [] (.resultBlocks "t" none (.insert [] [_] [_]))
  have h := (Relation.ReflTransGen.single hasked).tail hfound
  exact ⟨h, rfl, (growth_monotone h).2 narrow rfl⟩

end Routing

end ChatGateway
