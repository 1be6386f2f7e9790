import Mathlib.Data.List.DropRight
import Rivloom.Session.ContextManager

/-!
# Rolling back twice

Dropping the last `a` turns of a history and then the last `b` leaves the same items as
dropping the last `a + b`. A turn is dropped from the message that begins it on, and with it
the messages of context directly in front (`Rivloom.Session.isPreTurnContext`); no such
message begins a turn, so the turns that are left are found where they were
(`Rivloom.Session.ContextManager.drop_earlier`). If no turn is left, the history is cut in
front of the first one, wherever the cut was before
(`Rivloom.Session.ContextManager.drop_all`).

The baseline is another matter. When the context in front of the cut holds a bundle, in which
the developer said something else as well, the baseline is cleared
(`Rivloom.Session.bundleBefore`), for the bundle is gone from the history. A bundle that goes
together with a turn between the two cuts is gone just as well, but clears nothing: two
rollbacks clear the baseline where one does not
(`Rivloom.Session.rollbacks_compose_iff`).
-/

namespace Rivloom.Session

open ListEdit (exists_append_of_lt_countP length_positionsOf positionsOf)

variable {ρ κ ν : Type} (texts : FragmentTexts) {envelope : ResponseItemEnvelope ρ}

/-! ### Context in front of a turn -/

/-- A message of context, as it is trimmed in front of a turn that is dropped. -/
def isPreTurnContext : ResponseItem ρ → Bool
  | .message _ role content _ _ =>
    (role = "developer" ∧ texts.isContextualDevMessageContent content) ∨
      (role = "user" ∧ texts.isContextualUserMessageContent content)
  | _ => false

/-- A message of context of the developer that holds other instructions as well. -/
def isMixedBundle : ResponseItem ρ → Bool
  | .message _ role content _ _ =>
    role = "developer" ∧ texts.isContextualDevMessageContent content ∧
      texts.hasNonContextualDevMessageContent content
  | _ => false

/-- An item that begins a turn. -/
def begins (envelope : ResponseItemEnvelope ρ) : Bool := texts.isUserTurnBoundary envelope.item

/-- A message of context. -/
def isContext (envelope : ResponseItemEnvelope ρ) : Bool := isPreTurnContext texts envelope.item

/-- **A bundle is among the messages of context at the end** of these items. -/
def bundleBefore (items : List (ResponseItemEnvelope ρ)) : Bool :=
  (items.rtakeWhile (isContext texts)).any fun envelope => isMixedBundle texts envelope.item

variable {texts}

theorem isPreTurnContext_iff {item : ResponseItem ρ} :
    isPreTurnContext texts item = true ↔ ContextManager.IsTrimmable texts item := by
  constructor
  · intro h
    cases item with
    | message id role content phase metadata =>
      exact ⟨id, role, content, phase, metadata, rfl, of_decide_eq_true h⟩
    | _ => exact absurd h Bool.false_ne_true
  · rintro ⟨id, role, content, phase, metadata, rfl, h⟩
    exact decide_eq_true h

theorem begins_of_isContext (h : isContext texts envelope = true) :
    begins texts envelope = false := by
  obtain ⟨id, role, content, phase, metadata, hitem, hcontext⟩ := isPreTurnContext_iff.mp h
  rw [begins, hitem, FragmentTexts.isUserTurnBoundary]
  rcases hcontext with ⟨rfl, -⟩ | ⟨rfl, huser⟩
  · rfl
  · rw [huser]
    rfl

theorem begins_of_isDeveloperMessage (h : ContextManager.isDeveloperMessage envelope.item = true) :
    begins texts envelope = false := by
  obtain ⟨item, rest⟩ := envelope
  cases item with
  | message id role content phase metadata =>
    obtain rfl : role = "developer" := eq_of_beq h
    rfl
  | _ => exact absurd h Bool.false_ne_true

theorem countP_rdropWhile (items : List (ResponseItemEnvelope ρ)) :
    (items.rdropWhile (isContext texts)).countP (begins texts) = items.countP (begins texts) := by
  have hnone : (items.rtakeWhile (isContext texts)).countP (begins texts) = 0 := by
    rw [List.countP_eq_zero]
    intro envelope hmem
    rw [begins_of_isContext (List.mem_rtakeWhile_imp hmem)]
    exact Bool.false_ne_true
  conv_rhs => rw [← List.rdropWhile_append_rtakeWhile (p := isContext texts) (l := items)]
  rw [List.countP_append, hnone, Nat.add_zero]

namespace ContextManager

variable {snapshot : List (ResponseItemEnvelope ρ)} {numTurns : ℕ} {first : ℕ}

theorem trimPreTurnContextUpdates_succ {first cut : ℕ} (hlt : first < cut + 1)
    (hget : snapshot[cut]? = some envelope) (hcontext : isContext texts envelope = true) :
    trimPreTurnContextUpdates texts snapshot first (cut + 1) =
      ((trimPreTurnContextUpdates texts snapshot first cut).1,
        (trimPreTurnContextUpdates texts snapshot first cut).2 ||
          isMixedBundle texts envelope.item) := by
  obtain ⟨id, role, content, phase, metadata, hitem, hrole⟩ := isPreTurnContext_iff.mp hcontext
  rw [trimPreTurnContextUpdates, if_pos hlt, hget, Option.map_some, hitem]
  dsimp only
  rcases hrole with ⟨rfl, hdev⟩ | ⟨rfl, huser⟩
  · rw [if_pos ⟨rfl, hdev⟩, isMixedBundle]
    simp only [hdev, true_and, Bool.decide_eq_true]
  · have hrole : ("user" : String) ≠ "developer" := by decide
    rw [if_neg fun h => hrole h.1, if_pos ⟨rfl, huser⟩, isMixedBundle]
    simp only [hrole, false_and, decide_false, Bool.or_false]

/-- **The walk back from a cut** goes over the messages of context in front of it, as long as the
first turn begins with none. -/
theorem trimPreTurnContextUpdates_take
    (hfirst : ∀ envelope ∈ snapshot[first]?, isContext texts envelope = false) (cut : ℕ)
    (hlt : first < cut) (hle : cut ≤ snapshot.length) :
    trimPreTurnContextUpdates texts snapshot first cut =
      (((snapshot.take cut).rdropWhile (isContext texts)).length,
        bundleBefore texts (snapshot.take cut)) := by
  induction cut with
  | zero => exact absurd hlt (Nat.not_lt_zero first)
  | succ cut ih =>
    have hget : snapshot[cut]? = some (snapshot.get ⟨cut, hle⟩) := List.getElem?_eq_getElem hle
    have htake : snapshot.take (cut + 1) = snapshot.take cut ++ [snapshot.get ⟨cut, hle⟩] := by
      rw [List.take_add_one, hget]
      rfl
    rw [htake]
    cases hcontext : isContext texts (snapshot.get ⟨cut, hle⟩) with
    | true =>
      -- the first turn does not begin here
      have hne : first ≠ cut := by
        rintro rfl
        exact absurd ((hfirst _ hget).symm.trans hcontext) Bool.false_ne_true
      rw [trimPreTurnContextUpdates_succ hlt hget hcontext, ih (by omega) (by omega),
        List.rdropWhile_concat_pos _ _ _ hcontext, bundleBefore, bundleBefore,
        List.rtakeWhile_concat_pos _ _ _ hcontext, List.any_append]
      simp only [List.any_cons, List.any_nil, Bool.or_false]
    | false =>
      have hstop : ¬isContext texts (snapshot.get ⟨cut, hle⟩) = true := by
        rw [hcontext]
        exact Bool.false_ne_true
      rw [trimPreTurnContextUpdates_eq, List.rdropWhile_concat_neg _ _ _ hstop, bundleBefore,
        List.rtakeWhile_concat_neg _ _ _ hstop, List.length_append, List.length_take,
        Nat.min_eq_left (by omega)]
      · rfl
      · intro _ envelope henvelope htrim
        rw [Nat.add_sub_cancel, hget] at henvelope
        obtain rfl := Option.some.inj henvelope
        exact hstop (isPreTurnContext_iff.mpr htrim)

/-! ### What a rollback leaves -/

variable {manager : ContextManager ρ κ ν} {front rest : List (ResponseItemEnvelope ρ)}
  {boundary : ResponseItemEnvelope ρ}

/-- **What a rollback leaves**: these items, and this baseline. -/
def Leaves (manager : ContextManager ρ κ ν) (texts : FragmentTexts) (numTurns : ℕ)
    (items : List (ResponseItemEnvelope ρ)) (referenceContextItem : Option (TurnContextItem κ)) :
    Prop :=
  (manager.dropLastNUserTurns texts numTurns).items = items ∧
    (manager.dropLastNUserTurns texts numTurns).referenceContextItem = referenceContextItem

/-- What is left in front of the first turn when it is dropped. -/
def prefixWithout (texts : FragmentTexts) (front : List (ResponseItemEnvelope ρ))
    (boundary : ResponseItemEnvelope ρ) : List (ResponseItemEnvelope ρ) :=
  match boundary.item.turnId with
  | some firstTurnId => front.filterMap (withoutModelSwitch texts firstTurnId)
  | none => front

theorem userMessagePositions_append (front rest : List (ResponseItemEnvelope ρ))
    (hboundary : begins texts boundary = true) :
    userMessagePositions texts (front ++ boundary :: rest) =
      positionsOf (begins texts) front 0 ++
        front.length :: positionsOf (begins texts) rest (front.length + 1) := by
  have hcons := ListEdit.positionsOf_cons (begins texts) boundary rest front.length
  rw [if_pos hboundary] at hcons
  have happend := ListEdit.positionsOf_append (begins texts) front (boundary :: rest) 0
  rw [Nat.zero_add, hcons] at happend
  exact happend

theorem drop_none (numTurns : ℕ) (hnone : manager.items.countP (begins texts) = 0) :
    manager.Leaves texts numTurns manager.items manager.referenceContextItem := by
  have hpositions : userMessagePositions texts manager.items = [] := by
    refine ListEdit.positionsOf_eq_nil.mpr fun envelope hmem => ?_
    exact Bool.eq_false_iff.mpr (List.countP_eq_zero.mp hnone envelope hmem)
  rw [Leaves, dropLastNUserTurns]
  split_ifs
  · exact ⟨rfl, rfl⟩
  · dsimp only
    rw [hpositions]
    exact ⟨rfl, rfl⟩

/-- **All turns are dropped**: the history is cut in front of the first. -/
theorem drop_all (hitems : manager.items = front ++ boundary :: rest)
    (hboundary : begins texts boundary = true) (hfront : front.countP (begins texts) = 0)
    (hcount : rest.countP (begins texts) < numTurns) :
    manager.Leaves texts numTurns (prefixWithout texts front boundary)
      manager.referenceContextItem := by
  have hnone : positionsOf (begins texts) front 0 = [] := by
    refine ListEdit.positionsOf_eq_nil.mpr fun envelope hmem => ?_
    exact Bool.eq_false_iff.mpr (List.countP_eq_zero.mp hfront envelope hmem)
  have hget : manager.items[front.length]? = some boundary := by
    rw [hitems, List.getElem?_append_right le_rfl, Nat.sub_self]
    rfl
  have htake : manager.items.take front.length = front := by
    rw [hitems, List.take_left]
  have htrim : trimPreTurnContextUpdates texts manager.items front.length front.length =
      (front.length, false) :=
    trimPreTurnContextUpdates_eq fun hlt => absurd hlt (Nat.lt_irrefl _)
  have hpositions := userMessagePositions_append front rest hboundary
  rw [← hitems, hnone, List.nil_append] at hpositions
  have hlength : (front.length ::
      positionsOf (begins texts) rest (front.length + 1)).length ≤ numTurns := by
    rw [List.length_cons, length_positionsOf]
    exact hcount
  rw [Leaves, dropLastNUserTurns, if_neg (by omega)]
  dsimp only
  rw [hpositions, List.head?_cons]
  dsimp only
  rw [if_pos hlength, htrim, hget, htake]
  refine ⟨?_, rfl⟩
  rw [replaceAnnotated, Option.bind_some, prefixWithout]
  cases boundary.item.turnId with
  | none => rfl
  | some firstTurnId => exact if_pos rfl

theorem exists_first (h : 0 < front.countP (begins texts)) :
    ∃ first opening, (positionsOf (begins texts) front 0).head? = some first ∧
      front[first]? = some opening ∧ begins texts opening = true := by
  cases hpositions : positionsOf (begins texts) front 0 with
  | nil =>
    rw [← length_positionsOf _ _ 0, hpositions] at h
    exact absurd h (Nat.lt_irrefl 0)
  | cons first positions =>
    have hmem : first ∈ positionsOf (begins texts) front 0 := by
      rw [hpositions]
      exact List.mem_cons_self
    obtain ⟨opening, hopening, hbegins⟩ := ListEdit.exists_of_mem_positionsOf hmem
    exact ⟨first, opening, rfl, hopening, hbegins⟩

theorem lt_length_rdropWhile {opening : ResponseItemEnvelope ρ}
    (hopening : front[first]? = some opening) (hbegins : begins texts opening = true) :
    first < (front.rdropWhile (isContext texts)).length := by
  by_contra hge
  rw [← List.rdropWhile_append_rtakeWhile (p := isContext texts) (l := front),
    List.getElem?_append_right (Nat.le_of_not_lt hge)] at hopening
  have hcontext := List.mem_rtakeWhile_imp (List.mem_of_getElem? hopening)
  exact absurd ((begins_of_isContext hcontext).symm.trans hbegins) Bool.false_ne_true

/-- **Some turns are left**: the history is cut in front of the context of the first that is
dropped. -/
theorem drop_earlier (hitems : manager.items = front ++ boundary :: rest)
    (hboundary : begins texts boundary = true) (hfront : 0 < front.countP (begins texts))
    (hcount : rest.countP (begins texts) + 1 = numTurns) :
    manager.Leaves texts numTurns (front.rdropWhile (isContext texts))
      (if bundleBefore texts front then none else manager.referenceContextItem) := by
  obtain ⟨first, opening, hhead, hopening, hbegins⟩ := exists_first hfront
  have hlt : first < front.length := (List.getElem?_eq_some_iff.mp hopening).1
  have htake : manager.items.take front.length = front := by
    rw [hitems, List.take_left]
  have htrim : trimPreTurnContextUpdates texts manager.items first front.length =
      ((front.rdropWhile (isContext texts)).length, bundleBefore texts front) := by
    have hkept : ∀ envelope ∈ manager.items[first]?, isContext texts envelope = false := by
      intro envelope hget
      rw [hitems, List.getElem?_append_left hlt, hopening] at hget
      obtain rfl := Option.some.inj hget
      refine Bool.eq_false_iff.mpr fun hcontext => ?_
      exact absurd ((begins_of_isContext hcontext).symm.trans hbegins) Bool.false_ne_true
    have hle : front.length ≤ manager.items.length := by
      rw [hitems, List.length_append]
      exact Nat.le_add_right _ _
    have hwalk := trimPreTurnContextUpdates_take hkept front.length hlt hle
    rw [htake] at hwalk
    exact hwalk
  -- the cut is at the position of the first turn that is dropped
  have hpositions := userMessagePositions_append front rest hboundary
  rw [← hitems] at hpositions
  have hlength : (userMessagePositions texts manager.items).length =
      front.countP (begins texts) + numTurns := by
    rw [hpositions, List.length_append, List.length_cons, length_positionsOf,
      length_positionsOf, hcount]
  have hcut : (userMessagePositions texts manager.items).getD
      ((userMessagePositions texts manager.items).length - numTurns) 0 = front.length := by
    rw [hlength, Nat.add_sub_cancel, hpositions, List.getD_eq_getElem?_getD,
      List.getElem?_append_right (length_positionsOf _ _ _).le,
      length_positionsOf, Nat.sub_self]
    rfl
  have hfirst : (userMessagePositions texts manager.items).head? = some first := by
    rw [hpositions, List.head?_append, hhead]
    rfl
  have hretained : manager.items.take (front.rdropWhile (isContext texts)).length =
      front.rdropWhile (isContext texts) := by
    have hsplit := List.rdropWhile_append_rtakeWhile (p := isContext texts) (l := front)
    rw [hitems]
    nth_rewrite 2 [← hsplit]
    rw [List.append_assoc, List.take_left]
  rw [Leaves, dropLastNUserTurns, if_neg (by omega)]
  dsimp only
  rw [hfirst]
  dsimp only
  have hmany : ¬(userMessagePositions texts manager.items).length ≤ numTurns := by omega
  rw [if_neg hmany, hcut, htrim]
  refine ⟨?_, rfl⟩
  dsimp only [replaceAnnotated]
  rw [hretained]
  have hne := lt_length_rdropWhile hopening hbegins
  split
  · rw [if_neg (by omega)]
  · rfl

theorem isDeveloperMessage_of_edited {original envelope : ResponseItemEnvelope ρ}
    (hdeveloper : isDeveloperMessage original.item = true)
    (hkept : (match original.item.toAnnotatedContent with
      | none => none
      | some content =>
        let content := content.filter fun part => !isModelSwitch texts part.1
        if content = [] then none
        else (original.item.setAnnotatedContent content).map fun item =>
          { original with item }) = some envelope) :
    isDeveloperMessage envelope.item = true := by
  obtain ⟨item, turn⟩ := original
  cases item with
  | message id role content phase metadata =>
    simp only [ResponseItem.toAnnotatedContent] at hkept
    split_ifs at hkept
    obtain rfl := Option.some.inj hkept
    exact hdeveloper
  | _ => exact absurd hdeveloper Bool.false_ne_true

theorem countP_prefixWithout (hfront : front.countP (begins texts) = 0) :
    (prefixWithout texts front boundary).countP (begins texts) = 0 := by
  rw [prefixWithout]
  split
  next firstTurnId hturn =>
    rw [List.countP_eq_zero]
    intro envelope hmem
    obtain ⟨original, horiginal, hkept⟩ := List.mem_filterMap.mp hmem
    rw [withoutModelSwitch] at hkept
    split_ifs at hkept with hdeveloper
    · -- what is edited is a message of the developer, and remains one
      rw [begins_of_isDeveloperMessage (isDeveloperMessage_of_edited hdeveloper.2 hkept)]
      exact Bool.false_ne_true
    · obtain rfl := Option.some.inj hkept
      exact List.countP_eq_zero.mp hfront original horiginal
  · exact hfront

end ContextManager

open ContextManager

/-- **The context in front of the turn that is the last but so many holds a bundle**, and it is
not the first turn. -/
def BundleBeforeTurn (texts : FragmentTexts) (items : List (ResponseItemEnvelope ρ))
    (numTurns : ℕ) : Prop :=
  ∃ front boundary rest, items = front ++ boundary :: rest ∧ begins texts boundary = true ∧
    rest.countP (begins texts) + 1 = numTurns ∧ 0 < front.countP (begins texts) ∧
    bundleBefore texts front = true

section Compose

variable {items front rest : List (ResponseItemEnvelope ρ)} {boundary : ResponseItemEnvelope ρ}
  {numTurns : ℕ}

theorem bundleBeforeTurn_iff (hitems : items = front ++ boundary :: rest)
    (hboundary : begins texts boundary = true)
    (hcount : rest.countP (begins texts) + 1 = numTurns)
    (hfront : 0 < front.countP (begins texts)) :
    BundleBeforeTurn texts items numTurns ↔ bundleBefore texts front = true := by
  constructor
  · rintro ⟨front', boundary', rest', hitems', hboundary', hcount', -, hbundle⟩
    have hsame := ListEdit.append_inj_of_countP (hitems.symm.trans hitems') hboundary hboundary'
      (by omega)
    rw [hsame]
    exact hbundle
  · intro hbundle
    exact ⟨front, boundary, rest, hitems, hboundary, hcount, hfront, hbundle⟩

/-- The turn in front of which a bundle is looked for is not the first one. -/
theorem lt_countP_of_bundleBeforeTurn (h : BundleBeforeTurn texts items numTurns) :
    numTurns < items.countP (begins texts) := by
  obtain ⟨front, boundary, rest, rfl, hboundary, hcount, hfront, -⟩ := h
  rw [List.countP_append, List.countP_cons, if_pos hboundary]
  omega

end Compose

variable {manager : ContextManager ρ κ ν} {front rest kept : List (ResponseItemEnvelope ρ)}
  {boundary opening : ResponseItemEnvelope ρ} {a b : ℕ}

theorem exists_leaves_none (h : manager.items.countP (begins texts) ≤ a) :
    ∃ items : List (ResponseItemEnvelope ρ), items.countP (begins texts) = 0 ∧
      ∀ n, a ≤ n → manager.Leaves texts n items manager.referenceContextItem := by
  rcases Nat.eq_zero_or_pos (manager.items.countP (begins texts)) with hzero | hpos
  · exact ⟨manager.items, hzero, fun n _ => drop_none n hzero⟩
  · obtain ⟨front, boundary, rest, hitems, hboundary, hrest⟩ :=
      exists_append_of_lt_countP (Nat.sub_lt hpos one_pos)
    have htotal := congrArg (List.countP (begins texts)) hitems
    rw [List.countP_append, List.countP_cons, if_pos hboundary] at htotal
    have hfront : front.countP (begins texts) = 0 := by omega
    refine ⟨prefixWithout texts front boundary, countP_prefixWithout hfront, fun n hn => ?_⟩
    exact drop_all hitems hboundary hfront (by omega)

/-- What is behind the beginning of a turn that the first rollback leaves. -/
def behind (texts : FragmentTexts) (kept front rest : List (ResponseItemEnvelope ρ))
    (boundary : ResponseItemEnvelope ρ) : List (ResponseItemEnvelope ρ) :=
  kept ++ (front.rtakeWhile (isContext texts) ++ boundary :: rest)

theorem items_eq_behind {earlier : List (ResponseItemEnvelope ρ)}
    (hitems : manager.items = front ++ boundary :: rest)
    (hkept : front.rdropWhile (isContext texts) = earlier ++ opening :: kept) :
    manager.items = earlier ++ opening :: behind texts kept front rest boundary := by
  have hsplit := List.rdropWhile_append_rtakeWhile (p := isContext texts) (l := front)
  rw [hkept] at hsplit
  rw [hitems, behind]
  nth_rewrite 1 [← hsplit]
  simp only [List.append_assoc, List.cons_append]

theorem countP_behind (hboundary : begins texts boundary = true) :
    (behind texts kept front rest boundary).countP (begins texts) =
      kept.countP (begins texts) + rest.countP (begins texts) + 1 := by
  have hnone : (front.rtakeWhile (isContext texts)).countP (begins texts) = 0 := by
    rw [List.countP_eq_zero]
    intro envelope hmem
    rw [begins_of_isContext (List.mem_rtakeWhile_imp hmem)]
    exact Bool.false_ne_true
  rw [behind, List.countP_append, List.countP_append, List.countP_cons, if_pos hboundary, hnone]
  omega

/-- **Rollbacks compose**: the items are the same, and the baseline is if the first rollback
finds no bundle in front of its cut, or the longer one finds one as well, or there is no
baseline. -/
theorem rollbacks_compose_iff (manager : ContextManager ρ κ ν) (texts : FragmentTexts) (a b : ℕ)
    (ha : 0 < a) (hb : 0 < b) :
    (((manager.dropLastNUserTurns texts a).dropLastNUserTurns texts b).items =
        (manager.dropLastNUserTurns texts (a + b)).items ∧
      ((manager.dropLastNUserTurns texts a).dropLastNUserTurns texts b).referenceContextItem =
        (manager.dropLastNUserTurns texts (a + b)).referenceContextItem) ↔
    (manager.referenceContextItem = none ∨ ¬BundleBeforeTurn texts manager.items a ∨
      BundleBeforeTurn texts manager.items (a + b)) := by
  rcases Nat.lt_or_ge a (manager.items.countP (begins texts)) with hmany | hfew
  · obtain ⟨front, boundary, rest, hitems, hboundary, hrest⟩ :=
      exists_append_of_lt_countP (Nat.lt_of_le_of_lt (Nat.sub_le a 1) hmany)
    have htotal := congrArg (List.countP (begins texts)) hitems
    rw [List.countP_append, List.countP_cons, if_pos hboundary] at htotal
    have hfront : 0 < front.countP (begins texts) := by omega
    have hturns : rest.countP (begins texts) + 1 = a := by omega
    obtain ⟨hitems₁, hreference₁⟩ := drop_earlier hitems hboundary hfront hturns
    rw [bundleBeforeTurn_iff hitems hboundary hturns hfront]
    have hleft : (front.rdropWhile (isContext texts)).countP (begins texts) =
        front.countP (begins texts) := countP_rdropWhile front
    rcases Nat.lt_or_ge b (front.countP (begins texts)) with hmore | hless
    · -- both leave turns, and cut in front of the same one
      obtain ⟨earlier, opening, kept, hkept, hopening, hcount⟩ :=
        exists_append_of_lt_countP
          (lt_of_lt_of_eq (Nat.lt_of_le_of_lt (Nat.sub_le b 1) hmore) hleft.symm)
      have hearlier : 0 < earlier.countP (begins texts) := by
        rw [hkept, List.countP_append, List.countP_cons, if_pos hopening] at hleft
        omega
      have hbehind : (behind texts kept front rest boundary).countP (begins texts) + 1 = a + b := by
        rw [countP_behind hboundary]
        omega
      have hsame := items_eq_behind hitems hkept
      obtain ⟨hitems₂, hreference₂⟩ :=
        drop_earlier (hitems₁.trans hkept) hopening hearlier (by omega : _ = b)
      obtain ⟨hitems₃, hreference₃⟩ := drop_earlier hsame hopening hearlier hbehind
      rw [bundleBeforeTurn_iff hsame hopening hbehind hearlier, hitems₂, hreference₂, hitems₃,
        hreference₃, hreference₁]
      cases bundleBefore texts earlier with
      | true => simp
      | false => cases bundleBefore texts front <;> simp [eq_comm]
    · -- the second one leaves no turn, and neither does the longer one
      obtain ⟨earlier, opening, kept, hkept, hopening, hcount⟩ :=
        exists_append_of_lt_countP (k := front.countP (begins texts) - 1)
          (lt_of_lt_of_eq (Nat.sub_lt hfront one_pos) hleft.symm)
      have hearlier : earlier.countP (begins texts) = 0 := by
        rw [hkept, List.countP_append, List.countP_cons, if_pos hopening] at hleft
        omega
      have hbehind : (behind texts kept front rest boundary).countP (begins texts) < a + b := by
        rw [countP_behind hboundary]
        omega
      have hnone : ¬BundleBeforeTurn texts manager.items (a + b) := by
        intro hbundle
        have hlt := lt_countP_of_bundleBeforeTurn hbundle
        omega
      have hsame := items_eq_behind hitems hkept
      obtain ⟨hitems₂, hreference₂⟩ :=
        drop_all (hitems₁.trans hkept) hopening hearlier (by omega : _ < b)
      obtain ⟨hitems₃, hreference₃⟩ := drop_all hsame hopening hearlier hbehind
      rw [hitems₂, hreference₂, hitems₃, hreference₃, hreference₁]
      cases bundleBefore texts front with
      | true => simp [hnone, eq_comm]
      | false => simp
  · -- the first rollback leaves no turn
    obtain ⟨items, hnone, hleaves⟩ := exists_leaves_none hfew
    obtain ⟨hitems₁, hreference₁⟩ := hleaves a le_rfl
    obtain ⟨hitems, hreference⟩ := hleaves (a + b) (Nat.le_add_right a b)
    obtain ⟨hitems₂, hreference₂⟩ := drop_none b (hitems₁.symm ▸ hnone)
    rw [hitems₂, hitems₁, hreference₂, hreference₁, hitems, hreference]
    refine iff_of_true ⟨rfl, rfl⟩ (Or.inr (Or.inl fun hbundle => ?_))
    exact absurd (lt_countP_of_bundleBeforeTurn hbundle) (Nat.not_lt_of_le hfew)

/-! ### A bundle between two cuts -/

/-- The fragments of the source, for texts that are neither XML nor JSON. -/
def plainTexts : FragmentTexts := .ofReaders (fun _ => false) fun _ => false

/-- Two turns, the second with a bundle of context in front. -/
def bundledTurn : ContextManager Unit Unit ℕ where
  items :=
    [⟨.message none "user" [.inputText "first"] none none, none⟩,
      ⟨.message none "developer"
        [.inputText "<permissions instructions>", .inputText "plugins"] none none, none⟩,
      ⟨.message none "user" [.inputText "second"] none none, none⟩]
  referenceContextItem := some ⟨none, "model", none, none, ()⟩

/-- The same, with context only in front of the second turn. -/
def plainTurn : ContextManager Unit Unit ℕ :=
  { bundledTurn with
    items :=
      [⟨.message none "user" [.inputText "first"] none none, none⟩,
        ⟨.message none "developer" [.inputText "<permissions instructions>"] none none, none⟩,
        ⟨.message none "user" [.inputText "second"] none none, none⟩] }

theorem rollbacks_compose_plain :
    ((plainTurn.dropLastNUserTurns plainTexts 1).dropLastNUserTurns plainTexts 1).items =
        (plainTurn.dropLastNUserTurns plainTexts (1 + 1)).items ∧
      ((plainTurn.dropLastNUserTurns plainTexts 1).dropLastNUserTurns plainTexts
          1).referenceContextItem =
        (plainTurn.dropLastNUserTurns plainTexts (1 + 1)).referenceContextItem := by
  refine (rollbacks_compose_iff plainTurn plainTexts 1 1 one_pos one_pos).mpr (Or.inr (Or.inl ?_))
  have hitems : plainTurn.items = plainTurn.items.take 2 ++
      ⟨.message none "user" [.inputText "second"] none none, none⟩ :: [] := rfl
  have hfront : 0 < (plainTurn.items.take 2).countP (begins plainTexts) := by decide +kernel
  intro hbundle
  have hbefore := (bundleBeforeTurn_iff hitems (by decide +kernel) rfl hfront).mp hbundle
  exact absurd hbefore (by decide +kernel)

/-- **Two rollbacks clear the baseline, and one does not.** The bundle goes either way. -/
theorem bundle_between_cuts :
    ((bundledTurn.dropLastNUserTurns plainTexts 1).dropLastNUserTurns plainTexts
        1).referenceContextItem = none ∧
      (bundledTurn.dropLastNUserTurns plainTexts (1 + 1)).referenceContextItem =
        some ⟨none, "model", none, none, ()⟩ ∧
      ((bundledTurn.dropLastNUserTurns plainTexts 1).dropLastNUserTurns plainTexts 1).items =
        (bundledTurn.dropLastNUserTurns plainTexts (1 + 1)).items := by
  decide +kernel

end Rivloom.Session
