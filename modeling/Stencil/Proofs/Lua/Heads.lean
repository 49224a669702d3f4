import Stencil.Proofs.BlockHead
import Stencil.Proofs.Lua.Lexing
import Stencil.Proofs.Lua.Taking
/-!
# Block heads in a phrase

Where a text spells a phrase, a block head that is read in it is the word of a condition that begins
with a group. The group ends where the parenthesis of the condition has its partner, and after it the
block begins or the condition goes on.
-/
namespace Stencil.Lua

open Token

/-- Whether the word has a condition after it. -/
def guards : Word → Bool
  | .if | .elseif | .while => true
  | _ => false

/-- The token after a group, its first parenthesis already read and others open at the depth. -/
def afterGroup? : Nat → List Token → Option Token
  | _, [] => none
  | depth, .mark .openParen :: ts => afterGroup? (depth + 1) ts
  | 0, .mark .closeParen :: ts => ts.head?
  | outer + 1, .mark .closeParen :: ts => afterGroup? outer ts
  | depth, _ :: ts => afterGroup? depth ts

/-- The token after the group that the condition of a word begins with. -/
def afterHead? : Token → List Token → Option Token
  | .word w, .mark .openParen :: ts => if guards w then afterGroup? 0 ts else none
  | _, _ => none

/-- The tokens after the groups that conditions begin with. -/
def afterGroups : List Token → List Token
  | [] => []
  | t :: ts => (afterHead? t ts).toList ++ afterGroups ts

section Groups

variable {ts inside : List Token} {u v : Text}

private theorem afterGroup?_cons {t : Token} (ht : t.isParen = false) (depth : Nat) (ts : List Token) :
    afterGroup? depth (t :: ts) = afterGroup? depth ts := by
  have hopen : t ≠ .mark .openParen := by
    rintro rfl
    simp [isParen] at ht
  have hclose : t ≠ .mark .closeParen := by
    rintro rfl
    simp [isParen] at ht
  rw [afterGroup?]
  · exact hopen
  · exact fun _ => hclose
  · exact fun _ _ => hclose

theorem afterGroup?_append {depth : Nat} (h : Text.nest? '(' ')' depth (parens inside) = some 0)
    (tok : Token) (rest : List Token) :
    afterGroup? depth (inside ++ .mark .closeParen :: tok :: rest) = some tok := by
  induction inside generalizing depth with
  | nil =>
      obtain rfl : depth = 0 := Option.some.inj h
      rfl
  | cons t inside ih =>
      by_cases ht : t.isParen = true
      · unfold isParen at ht
        split at ht
        · have hopen : parens (.mark .openParen :: inside) = '(' :: parens inside := rfl
          rw [hopen, Text.nest?_opening] at h
          exact ih h
        · have hclose : parens (.mark .closeParen :: inside) = ')' :: parens inside := rfl
          rw [hclose] at h
          cases depth with
          | zero =>
              rw [Text.nest?_zero_closing (by decide)] at h
              simp at h
          | succ outer =>
              rw [Text.nest?_closing (by decide)] at h
              exact ih h
        · simp at ht
      · rw [Bool.not_eq_true] at ht
        rw [parens_cons ht] at h
        rw [List.cons_append, afterGroup?_cons ht]
        exact ih h

theorem mem_afterGroups {w : Word} (hw : guards w = true) (hinside : Paired inside)
    (before : List Token) (tok : Token) (rest : List Token) :
    tok ∈ afterGroups (before ++ .word w :: .mark .openParen ::
      (inside ++ .mark .closeParen :: tok :: rest)) := by
  induction before with
  | nil =>
      rw [List.nil_append, afterGroups, afterHead?, if_pos hw, afterGroup?_append hinside]
      exact List.mem_append_left _ (by simp)
  | cons t before ih =>
      rw [List.cons_append, afterGroups]
      exact List.mem_append_right _ ih

private theorem ofName_head {word : String} (h : word ∈ ["if", "for", "while", "elseif"]) :
    ∃ w, Token.ofName word.toList = .word w ∧ (guards w = true ∨ w = .for) := by
  simp only [List.mem_cons, List.not_mem_nil, or_false] at h
  rcases h with rfl | rfl | rfl | rfl
  · exact ⟨.if, rfl, Or.inl rfl⟩
  · exact ⟨.for, rfl, Or.inr rfl⟩
  · exact ⟨.while, rfl, Or.inl rfl⟩
  · exact ⟨.elseif, rfl, Or.inl rfl⟩

/-- A block head is a word and a parenthesis. -/
theorem exists_head {head : BlockHead} (h : Spells ts (u ++ v))
    (hread : BlockHead.read? u.getLast? v = some head) : ∃ ts₁ w ts₂,
      ts = ts₁ ++ .word w :: .mark .openParen :: ts₂ ∧ (guards w = true ∨ w = .for) ∧
        Spells ts₂ head.afterOpen := by
  obtain ⟨keyword, afterOpen⟩ := head
  obtain ⟨hbegin, hkey, b, hb, rfl⟩ := BlockHead.read?_eq_some.mp hread
  have hkeyword : ∀ word ∈ ["if", "for", "while", "elseif"], Keyword word.toList := by decide
  have hstops {b : Text} (hb : Text.Blank b) (t : Text) : Stops (b ++ '(' :: t) :=
    stops_blank_append hb (by rintro c ⟨⟩; decide)
  -- a head written as one word
  have single {ts : List Token} {u : Text} (word : String)
      (hword : word ∈ ["if", "for", "while", "elseif"]) (hbegin : wordMayBegin u.getLast? = true)
      (h : Spells ts (u ++ (word.toList ++ (b ++ '(' :: afterOpen)))) : ∃ ts₁ w ts₂,
        ts = ts₁ ++ .word w :: .mark .openParen :: ts₂ ∧ (guards w = true ∨ w = .for) ∧
          Spells ts₂ afterOpen := by
    obtain ⟨ts₁, ts₂, rfl, -, h₂⟩ := h.cut_word (hkeyword word hword) hbegin (hstops hb afterOpen)
    obtain ⟨ts₃, rfl, h₃⟩ := (h₂.trim hb).openParen
    obtain ⟨w, hw, hkind⟩ := ofName_head hword
    exact ⟨ts₁, w, ts₃, by rw [hw], hkind, h₃⟩
  cases hkey with
  | plain hword =>
      have hsub : ["if", "for", "while"] ⊆ ["if", "for", "while", "elseif"] := by decide
      exact single _ (hsub hword) hbegin h
  | @branch b' hb' =>
      cases b' with
      | nil => exact single "elseif" (by decide) hbegin h
      | cons c b' =>
          -- the head is written as two words
          have hsplit : u ++ ("else".toList ++ (c :: b' ++ "if".toList) ++ (b ++ '(' :: afterOpen)) =
              u ++ ("else".toList ++ (c :: b' ++ ("if".toList ++ (b ++ '(' :: afterOpen)))) := by simp
          have helse : Stops (c :: b' ++ ("if".toList ++ (b ++ '(' :: afterOpen))) :=
            stops_of_blank (Text.blank_cons.mp hb').1 _
          rw [hsplit] at h
          obtain ⟨ts₁, ts₂, rfl, -, h₂⟩ := h.cut_word (by decide) hbegin helse
          obtain ⟨ts₃, w, ts₄, rfl, hkind, h₄⟩ :=
            single (u := []) "if" (by decide) rfl (h₂.trim hb')
          exact ⟨ts₁ ++ .ofName "else".toList :: ts₃, w, ts₄, by simp, hkind, h₄⟩

/-- The group of a head is the one that the condition begins with. -/
theorem exists_group {head : BlockHead} (hphrase : Phrase ts) (h : Spells ts (u ++ v))
    (hread : BlockHead.read? u.getLast? v = some head) : ∃ condition after tok rest,
      Text.splitGroup? '(' ')' 0 head.afterOpen = some (condition, after) ∧
        Spells (tok :: rest) after ∧ tok ∈ afterGroups ts ∧
          (tok.opensBlock = true ∨ tok.continues = true) := by
  obtain ⟨ts₁, w, ts₂, rfl, hw, h₂⟩ := exists_head h hread
  have hheads := hphrase.headed ts₁ w _ rfl
  have hguards : guards w = true := by
    refine hw.resolve_right ?_
    rintro rfl
    obtain ⟨id, rest, hname⟩ := hheads
    simp at hname
  obtain ⟨c, tok, rest₀, hpost, hcondition, htok⟩ : ∃ c t rest,
      .mark .openParen :: ts₂ = c ++ t :: rest ∧ Condition c ∧ t.opensBlock = true := by
    unfold guards at hguards
    split at hguards
    · exact hheads
    · exact hheads
    · exact hheads
    · simp at hguards
  obtain ⟨c, rfl⟩ : ∃ c', c = .mark .openParen :: c' := by
    obtain ⟨t, hhead, -⟩ := hcondition.begins
    cases c with
    | nil => simp at hhead
    | cons t' c =>
        obtain ⟨rfl, -⟩ := List.cons.inj hpost
        exact ⟨c, rfl⟩
  obtain ⟨inside, after, rfl, hinside, hafter⟩ := hcondition.group c rfl
  obtain ⟨-, rfl⟩ := List.cons.inj hpost
  obtain ⟨first, rest, hfirst, hkind⟩ : ∃ first rest, after ++ tok :: rest₀ = first :: rest ∧
      (first.opensBlock = true ∨ first.continues = true) := by
    cases after with
    | nil => exact ⟨tok, rest₀, rfl, Or.inl htok⟩
    | cons t after => exact ⟨t, after ++ tok :: rest₀, rfl, Or.inr (hafter t rfl)⟩
  have hts : (inside ++ .mark .closeParen :: after).append (tok :: rest₀) =
      inside ++ .mark .closeParen :: first :: rest := by
    change inside ++ .mark .closeParen :: after ++ tok :: rest₀ = _
    rw [List.append_assoc, List.cons_append, hfirst]
  rw [hts] at h₂ ⊢
  obtain ⟨s, s', hopen, hs, hs'⟩ := h₂.split
  obtain ⟨b, w', v', rfl, hb, hclose, -, hrest⟩ := hs'.first
  obtain rfl := written_closeParen hclose
  refine ⟨s ++ b, v', first, rest, ?_, hrest, mem_afterGroups hguards hinside ts₁ first rest, hkind⟩
  have hblank : ∀ c ∈ ['(', ')'], c ∉ b := by
    have hall : ∀ c ∈ ['(', ')'], isBlank c = false := by decide
    intro c hc hmem
    have hc' := hb c hmem
    simp [hall c hc] at hc'
  have hnest : Text.nest? '(' ')' 0 (s ++ b) = some 0 := by
    rw [Text.nest?_append, hs.nest?, hinside]
    exact Text.nest?_of_not_mem (hblank _ (by simp)) (hblank _ (by simp)) 0
  exact (Text.splitGroup?_eq_some (by decide)).mpr ⟨by rw [hopen]; simp, hnest⟩

end Groups

/-! ## Sources -/

def tokens (source : Text) : List Token := (lex source).map (·.token)

/-- A source that is taken is a body, and its mask spells the tokens. -/
theorem body_spells {room : Nat} {source : Text} {b : Block}
    (hvalid : Parse.chunk room (lex source) = .ok b) (hm : Maskable (tiles source)) :
    Body (tokens source) ∧ Spells (tokens source) (Mask.ofText source).text := by
  have hbody := Parse.body_of_chunk hvalid
  exact ⟨hbody, spells_lex hm fun l hl => hbody.phrase.readable _ (List.mem_map_of_mem hl)⟩

end Stencil.Lua
