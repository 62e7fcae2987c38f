import SearchQuery.Lint.Finding
import SearchQuery.Proofs.Trim
import Mathlib.Data.List.Basic

/-! # Reading a trail back from its text

The text of a trail has a dot before each further member and brackets around each index. When no
name on it has a dot or a bracket, the text tells the trail, so no two places of a request share
the text under which their findings are reported. -/
namespace SearchQuery.Lint

theorem digitChars_injective : Function.Injective Json.digitChars := by
  intro i j h
  calc
    i = Nat.ofDigitChars 10 (Json.digitChars i) 0 := Nat.ofDigitChars_ten_toDigits.symm
    _ = Nat.ofDigitChars 10 (Json.digitChars j) 0 := by rw [h]
    _ = j := Nat.ofDigitChars_ten_toDigits

/-- Two texts are the same up to where a mark ends them. -/
theorem append_inj_of_mark {p : Char → Bool} {xs xs' ys ys' : List Char}
    (hxs : ∀ c ∈ xs, p c = false) (hxs' : ∀ c ∈ xs', p c = false)
    (hys : ∀ c ∈ ys.head?, p c = true) (hys' : ∀ c ∈ ys'.head?, p c = true)
    (h : xs ++ ys = xs' ++ ys') : xs = xs' ∧ ys = ys' := by
  have hbefore {xs ys : List Char} (hxs : ∀ c ∈ xs, p c = false)
      (hys : ∀ c ∈ ys.head?, p c = true) : (xs ++ ys).takeWhile (fun c => !p c) = xs :=
    (Text.takeWhile_append_of_head? (by simpa using hxs) (by simpa using hys)).1
  obtain rfl : xs = xs' := by rw [← hbefore hxs hys, h, hbefore hxs' hys']
  exact ⟨rfl, List.append_cancel_left h⟩

namespace Trail

def isMark (c : Char) : Bool := c = '.' || c = '['

/-- A step whose name cannot be taken for several steps. -/
def IsPlainStep : Step → Prop
  | .member name => name ≠ "" ∧ ∀ c ∈ name.toList, isMark c = false
  | .index _ => True

def IsPlain (t : Trail) : Prop := ∀ step ∈ t, IsPlainStep step

theorem toList_tailText_member (name : String) (t : Trail) :
    (tailText (.member name :: t)).toList = '.' :: (name.toList ++ (tailText t).toList) := by
  simp [tailText]

theorem toList_tailText_index (i : Nat) (t : Trail) :
    (tailText (.index i :: t)).toList =
      '[' :: (Json.digitChars i ++ ']' :: (tailText t).toList) := by
  simp [tailText]

theorem tailText_cons_ne_nil (step : Step) (t : Trail) : (tailText (step :: t)).toList ≠ [] := by
  cases step with
  | member name => simp [toList_tailText_member]
  | index i => simp [toList_tailText_index]

theorem isMark_head?_tailText (t : Trail) : ∀ c ∈ (tailText t).toList.head?, isMark c = true := by
  cases t with
  | nil => simp [tailText]
  | cons step t =>
    cases step with
    | member name => simp [toList_tailText_member, isMark]
    | index i => simp [toList_tailText_index, isMark]

theorem digit_ne_bracket {i : Nat} {c : Char} (h : c ∈ Json.digitChars i) : c ≠ ']' := by
  have hdigit := Nat.isDigit_of_mem_toDigits (by decide) (by decide) h
  rintro rfl
  simp at hdigit

theorem tailText_inj {t t' : Trail} (ht : IsPlain t) (ht' : IsPlain t')
    (h : (tailText t).toList = (tailText t').toList) : t = t' := by
  induction t generalizing t' with
  | nil =>
    cases t' with
    | nil => rfl
    | cons step' t' => exact absurd h.symm (tailText_cons_ne_nil step' t')
  | cons step t ih =>
    obtain ⟨hstep, hrest⟩ := List.forall_mem_cons.1 ht
    cases t' with
    | nil => exact absurd h (tailText_cons_ne_nil step t)
    | cons step' t' =>
      obtain ⟨hstep', hrest'⟩ := List.forall_mem_cons.1 ht'
      cases step with
      | member name =>
        cases step' with
        | member name' =>
          rw [toList_tailText_member, toList_tailText_member, List.cons_inj_right] at h
          obtain ⟨hname, htail⟩ := append_inj_of_mark hstep.2 hstep'.2 (isMark_head?_tailText t)
            (isMark_head?_tailText t') h
          rw [String.toList_inj.1 hname, ih hrest hrest' htail]
        | index i => simp [toList_tailText_member, toList_tailText_index] at h
      | index i =>
        cases step' with
        | member name => simp [toList_tailText_member, toList_tailText_index] at h
        | index j =>
          rw [toList_tailText_index, toList_tailText_index, List.cons_inj_right] at h
          obtain ⟨hdigits, htail⟩ := append_inj_of_mark (p := (· = ']'))
            (fun c hc => by simpa using digit_ne_bracket hc)
            (fun c hc => by simpa using digit_ne_bracket hc) (by simp) (by simp) h
          rw [digitChars_injective hdigits, ih hrest hrest' (List.cons.inj htail).2]

theorem text_member (name : String) (t : Trail) :
    (tailText (.member name :: t)).toList = '.' :: (text (.member name :: t)).toList := by
  simp [tailText, text]

/-- A member at the start has no dot before it, and anything else starts with a mark. -/
theorem text_member_ne {name : String} {t t' : Trail} (hname : IsPlainStep (.member name)) :
    (text (.member name :: t)).toList ≠ (tailText t').toList := by
  obtain ⟨hne, hplain⟩ := hname
  intro h
  have hmark := isMark_head?_tailText t'
  cases hchars : name.toList with
  | nil => exact hne (String.toList_eq_nil_iff.1 hchars)
  | cons c cs =>
    have hc : isMark c = false := hplain c (hchars ▸ List.mem_cons_self)
    have hhead : (text (.member name :: t)).toList.head? = some c := by simp [text, hchars]
    rw [← h, hhead] at hmark
    simpa [hc] using hmark c rfl

/-- The text of a plain trail tells the trail. -/
theorem text_inj {t t' : Trail} (ht : IsPlain t) (ht' : IsPlain t') (h : t.text = t'.text) :
    t = t' := by
  have hchars : t.text.toList = t'.text.toList := congrArg String.toList h
  -- the text of a member at the start lacks the dot that `tailText` has there
  match t, t' with
  | .member name :: t, .member name' :: t' =>
    refine tailText_inj ht ht' ?_
    rw [text_member, text_member, hchars]
  | .member name :: t, [] | .member name :: t, .index i :: t' =>
    exact absurd hchars (text_member_ne (List.forall_mem_cons.1 ht).1)
  | [], .member name :: t' | .index i :: t, .member name :: t' =>
    exact absurd hchars.symm (text_member_ne (List.forall_mem_cons.1 ht').1)
  | [], [] | [], .index i :: t' | .index i :: t, [] | .index i :: t, .index j :: t' =>
    exact tailText_inj ht ht' hchars

end Trail

end SearchQuery.Lint
