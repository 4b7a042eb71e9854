/-!
# Exclusive ownership

Holders own resources of a store.  `Owned live own used` says that what a live
holder owns is in use and has no second live owner.  The two rules cover what
an operation can do: hand out resources that were not in use (`Owned.grow`),
and drop holders or parts of what they own (`Owned.shrink`).
-/

universe u v

variable {ι : Type u} {α : Type v}

/-- What the live holders own is in use and belongs to one of them only. -/
structure Owned (live : ι → Prop) (own : ι → α → Prop) (used : α → Prop) : Prop where
  used : ∀ p a, live p → own p a → used a
  apart : ∀ p q a, live p → live q → own p a → own q a → p = q

namespace Owned

variable {live live' : ι → Prop} {own own' fresh : ι → α → Prop} {used used' : α → Prop}

/-- Holders appear or take more, each a share of its own of what was not in use. -/
theorem grow (h : Owned live own used)
    (hown : ∀ p a, live' p → own' p a → live p ∧ own p a ∨ fresh p a)
    (hfresh : ∀ p a, fresh p a → ¬ used a)
    (hshare : ∀ p q a, fresh p a → fresh q a → p = q)
    (hused : ∀ p a, live' p → own' p a → used' a) : Owned live' own' used' where
  used := hused
  apart p q a hp hq hpa hqa := by
    rcases hown p a hp hpa with ⟨hp, hpa⟩ | hpa <;> rcases hown q a hq hqa with ⟨hq, hqa⟩ | hqa
    · exact h.apart p q a hp hq hpa hqa
    · exact absurd (h.used p a hp hpa) (hfresh q a hqa)
    · exact absurd (h.used q a hq hqa) (hfresh p a hpa)
    · exact hshare p q a hpa hqa

/-- Holders disappear or keep less; what is still owned stays in use. -/
theorem shrink (h : Owned live own used) (hlive : ∀ p, live' p → live p)
    (hown : ∀ p a, live' p → own' p a → own p a)
    (hused : ∀ p a, live' p → own' p a → used a → used' a) : Owned live' own' used' where
  used p a hp hpa := hused p a hp hpa (h.used p a (hlive p hp) (hown p a hp hpa))
  apart p q a hp hq hpa hqa :=
    h.apart p q a (hlive p hp) (hlive q hq) (hown p a hp hpa) (hown q a hq hqa)

end Owned
