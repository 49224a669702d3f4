import Stencil.Proofs.Style.Comments
import Stencil.Proofs.Style.Passes
/-!
# The compressed style

Compressed text keeps every character that is neither white space nor part of a comment, and its white
space is in one normal form. Nothing but a comment can bring a second round to change it: where the
removal of the comments joins what stood around them to a new one, the new one is left for the next
round.
-/
namespace Stencil

namespace Style

open Text

/-- The white space of compressed text. -/
structure Compressed (t : Text) : Prop where
  front : Flush t
  back : Flush t.reverse
  spaced : Spaced t
  gapless : Gapless t
  snug : Snug t

/-- What the passes after the first make of a text. -/
structure Settles (t t' : Text) : Prop where
  compressed : Compressed t'
  content : (t'.filter fun c => !isBlank c) = t.filter fun c => !isBlank c
  comments : HasComment t' ↔ HasComment t

theorem settles_compress (t : Text) : Settles (t.replaceAll comment) (compress t) := by
  obtain ⟨hgaps, hgapless⟩ := tagGap_thins (t.replaceAll comment)
  obtain ⟨hruns, hspaced⟩ := blankRun_thins ((t.replaceAll comment).replaceAll tagGap)
  obtain ⟨hquotes, hsnug⟩ :=
    quotedPadding_thins (((t.replaceAll comment).replaceAll tagGap).replaceAll blankRun)
  have hends := trim_thins
    ((((t.replaceAll comment).replaceAll tagGap).replaceAll blankRun).replaceAll quotedPadding)
  constructor
  · exact {
      front := flush_trim _
      back := flush_reverse_trim _
      spaced := (hends.spaced (hquotes.spaced hspaced).1).1
      gapless := hends.gapless (hquotes.gapless (hruns.gapless hgapless))
      snug := snug_trim hsnug }
  · exact hends.content.trans (hquotes.content.trans (hruns.content.trans hgaps.content))
  · exact hends.hasComment.trans
      (hquotes.hasComment.trans (hruns.hasComment.trans hgaps.hasComment))

/-- Compressed text without a comment is compressed to itself. -/
theorem compress_of_compressed {t : Text} (ht : Compressed t) (hnone : ¬ HasComment t) :
    compress t = t := by
  unfold compress
  rw [(Stripped.plain hnone).replaceAll, replaceAll_tagGap ht.gapless, replaceAll_blankRun ht.spaced,
    replaceAll_quotedPadding t ht.snug, trim_of_flush ht.front ht.back]

/-- The compressed style keeps the content: what is not white space is what is left, in its order,
when each leftmost shortest comment is removed. The white space that is left is in normal form. -/
theorem compressed_apply (t : Text) :
    Compressed (apply .compressed t) ∧ (∃ u, Stripped t u) ∧
      ∀ u, Stripped t u →
        ((apply .compressed t).filter fun c => !isBlank c) = u.filter fun c => !isBlank c := by
  refine ⟨(settles_compress t).compressed, ⟨_, stripped_replaceAll t⟩, ?_⟩
  intro u hu
  rw [← hu.replaceAll]
  exact (settles_compress t).content

example : apply .compressed
    "<ul>\n  <li class=\"  a \">one</li>\n  <!-- gone -->\n  <li>two   words</li>\n</ul>\n".toList =
      "<ul><li class=\"a\">one</li><li>two words</li></ul>".toList := by decide

/-- Compressing again changes nothing exactly where removing the comments brings up no new one. -/
theorem apply_compressed_again (t : Text) :
    apply .compressed (apply .compressed t) = apply .compressed t ↔
      ∀ u, Stripped t u → ¬ HasComment u := by
  change compress (compress t) = compress t ↔ _
  have hfirst := settles_compress t
  constructor
  · intro hagain u hu hcomment
    -- the comment is still there, so the second round removes some of it
    rw [← hu.replaceAll, ← hfirst.comments] at hcomment
    have hless := (stripped_replaceAll (compress t)).length_content_lt hcomment
    rw [← (settles_compress (compress t)).content, hagain] at hless
    omega
  · intro hnone
    apply compress_of_compressed hfirst.compressed
    rw [hfirst.comments]
    exact hnone _ (stripped_replaceAll t)

/-- A comment inside the start of another leaves that one behind, for the next round to remove. -/
theorem apply_compressed_again_changes :
    apply .compressed "<!<!-- x -->-- y -->".toList = "<!-- y -->".toList ∧
      apply .compressed (apply .compressed "<!<!-- x -->-- y -->".toList) ≠
        apply .compressed "<!<!-- x -->-- y -->".toList := by
  decide

end Style

end Stencil
