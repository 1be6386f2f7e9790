import Rivloom.Lib.Action

/-!
# Reading a stream in chunks

A reader is handed a stream piece by piece, and hands over what it has completed. It may fail, and
then what it had completed of the same piece is not handed over: a failure has no other result
(`Rivloom.Feed.feed`).

A reader is *sequential* (`Rivloom.Feed.Sequential`) if two pieces read one after the other are
like both of them read at once. For such a reader it does not matter where the stream is cut –
except for the piece in which it fails. `Rivloom.Feed.Sequential.feed_chunks` compares any cutting
with the finest one: the failure is in the piece with the item at which the finest cutting fails,
and what is handed over is what the finest cutting hands over before this piece.
-/

namespace Rivloom.Feed

variable {σ ε β γ : Type} {chunk : List β} (chunks : List (List β))

/-- Hand over pieces until the reader fails: what it has completed, and the piece at which it
fails. -/
def feed (push : List β → Action σ ε (List γ)) : List (List β) → σ → List γ × Option (ℕ × ε)
  | [], _ => ([], none)
  | chunk :: chunks, s =>
    match push chunk s with
    | (.error e, _) => ([], some (0, e))
    | (.ok out, s') =>
      (out ++ (feed push chunks s').1, (feed push chunks s').2.map fun f => (f.1 + 1, f.2))

/-- The finest cutting. -/
def singles (stream : List β) : List (List β) := stream.map fun b => [b]

/-- **Two pieces are like one.** -/
structure Sequential (push : List β → Action σ ε (List γ)) : Prop where
  nil : push [] = pure []
  append : ∀ a b, push (a ++ b) = (do
    let x ← push a
    let y ← push b
    return x ++ y)

/-- A reader that takes the first item of a piece, and then the rest, is sequential. -/
theorem Sequential.of_cons {push : List β → Action σ ε (List γ)} (hnil : push [] = pure [])
    (hcons : ∀ b rest, push (b :: rest) = (do
      let x ← push [b]
      let y ← push rest
      return x ++ y)) : Sequential push where
  nil := hnil
  append a b := by
    induction a with
    | nil => simp only [hnil, Action.pure_bind, List.nil_append, Action.bind_pure]
    | cons c a ih =>
      rw [List.cons_append, hcons c (a ++ b), hcons c a, ih]
      simp only [Action.bind_assoc, Action.pure_bind, List.append_assoc]

/-- An item of a stream is in one of its pieces. -/
def Within (chunks : List (List β)) (i p : ℕ) : Prop :=
  (chunks.take i).flatten.length ≤ p ∧ p < (chunks.take (i + 1)).flatten.length

theorem length_take_mono {i j : ℕ} (h : i ≤ j) :
    (chunks.take i).flatten.length ≤ (chunks.take j).flatten.length := by
  have hinit : chunks.take i <+: chunks.take j := List.take_prefix_take_left h
  obtain ⟨more, hmore⟩ := hinit
  rw [← hmore, List.flatten_append, List.length_append]
  exact Nat.le_add_right _ _

/-- An item is in one piece only. -/
theorem Within.unique {chunks : List (List β)} {i j p : ℕ} (h : Within chunks i p)
    (h' : Within chunks j p) : i = j := by
  obtain ⟨hi, hi'⟩ := h
  obtain ⟨hj, hj'⟩ := h'
  rcases Nat.lt_trichotomy i j with hlt | heq | hlt
  · exact absurd (Nat.le_trans (length_take_mono chunks hlt) hj) (Nat.not_le.mpr hi')
  · exact heq
  · exact absurd (Nat.le_trans (length_take_mono chunks hlt) hi) (Nat.not_le.mpr hj')

variable {push : List β → Action σ ε (List γ)} {s s' : σ} {out : List γ} {e : ε}

theorem feed_of_error (h : push chunk s = (.error e, s')) (chunks : List (List β)) :
    feed push (chunk :: chunks) s = ([], some (0, e)) := by
  rw [feed, h]

theorem feed_of_ok (h : push chunk s = (.ok out, s')) (chunks : List (List β)) :
    feed push (chunk :: chunks) s = (out ++ (feed push chunks s').1,
      (feed push chunks s').2.map fun f => (f.1 + 1, f.2)) := by
  rw [feed, h]

namespace Sequential

variable (hpush : Sequential push) {a : List β}
include hpush

theorem push_append_of_ok (h : push a s = (.ok out, s')) (b : List β) :
    push (a ++ b) s = ((push b s').1.map (out ++ ·), (push b s').2) := by
  rw [hpush.append, Action.bind_of_ok h]
  rcases hb : push b s' with ⟨e | y, s''⟩
  · rw [Action.bind_of_error hb]
    rfl
  · rw [Action.bind_of_ok hb]
    rfl

theorem push_append_of_error (h : push a s = (.error e, s')) (b : List β) :
    push (a ++ b) s = (.error e, s') := by
  rw [hpush.append, Action.bind_of_error h]

/-- **One piece, item by item**: it is read without a failure if the items are, and it fails if one
of them does. -/
theorem feed_singles (chunk : List β) (s : σ) (more : List (List β)) :
    (∃ out s', push chunk s = (.ok out, s') ∧
      feed push (singles chunk ++ more) s = (out ++ (feed push more s').1,
        (feed push more s').2.map fun f => (f.1 + chunk.length, f.2))) ∨
    ∃ e s' p, push chunk s = (.error e, s') ∧ p < chunk.length ∧
      (feed push (singles chunk ++ more) s).2 = some (p, e) := by
  induction chunk generalizing s with
  | nil =>
    refine Or.inl ⟨[], s, by rw [hpush.nil]; rfl, ?_⟩
    simp [singles]
  | cons b chunk ih =>
    rw [show singles (b :: chunk) ++ more = [b] :: (singles chunk ++ more) from rfl]
    rcases hb : push [b] s with ⟨e | first, s₁⟩
    · refine Or.inr ⟨e, s₁, 0, hpush.push_append_of_error hb chunk, Nat.succ_pos _, ?_⟩
      rw [feed_of_error hb]
    · have happend := hpush.push_append_of_ok hb chunk
      rw [List.singleton_append] at happend
      rw [feed_of_ok hb]
      rcases ih s₁ with ⟨out, s', hchunk, hfeed⟩ | ⟨e, s', p, hchunk, hp, hfeed⟩
      · refine Or.inl ⟨first ++ out, s', by rw [happend, hchunk]; rfl, ?_⟩
        rw [hfeed, List.append_assoc, Option.map_map]
        refine congrArg _ (congrArg (Option.map · _) (funext fun f => ?_))
        exact congrArg (·, f.2) (Nat.add_assoc f.1 chunk.length 1)
      · refine Or.inr ⟨e, s', p + 1, by rw [happend, hchunk]; rfl, Nat.succ_lt_succ hp, ?_⟩
        rw [hfeed]
        rfl

/-- **Every cutting is like the finest one**, up to what was completed in the piece of the
failure. -/
theorem feed_chunks (s : σ) :
    ((feed push (singles chunks.flatten) s).2 = none ∧
      feed push chunks s = feed push (singles chunks.flatten) s) ∨
    ∃ i p e, (feed push (singles chunks.flatten) s).2 = some (p, e) ∧
      (feed push chunks s).2 = some (i, e) ∧ Within chunks i p ∧
      feed push (singles (chunks.take i).flatten) s = ((feed push chunks s).1, none) ∧
      (feed push chunks s).1 <+: (feed push (singles chunks.flatten) s).1 := by
  induction chunks generalizing s with
  | nil => exact Or.inl ⟨rfl, rfl⟩
  | cons chunk chunks ih =>
    have hsingles : singles (chunk :: chunks).flatten = singles chunk ++
        singles chunks.flatten := by
      simp [singles]
    rw [hsingles]
    rcases hpush.feed_singles chunk s (singles chunks.flatten) with
      ⟨out, s', hchunk, hfeed⟩ | ⟨e, s', p, hchunk, hp, hfeed⟩
    · rw [hfeed, feed_of_ok hchunk]
      rcases ih s' with ⟨hnone, hsame⟩ | ⟨i, p, e, hfault, hi, ⟨hle, hlt⟩, hbefore, hinit⟩
      · refine Or.inl ⟨by rw [hnone]; rfl, ?_⟩
        rw [hsame, hnone]
        rfl
      · refine Or.inr ⟨i + 1, p + chunk.length, e, by rw [hfault]; rfl, by rw [hi]; rfl, ?_, ?_,
          (List.prefix_append_right_inj out).mpr hinit⟩
        · constructor
          · rw [List.take_succ_cons, List.flatten_cons, List.length_append]
            omega
          · rw [List.take_succ_cons, List.flatten_cons, List.length_append]
            omega
        · -- the pieces before the failing one are read without a failure
          have hpieces : singles ((chunk :: chunks).take (i + 1)).flatten =
              singles chunk ++ singles (chunks.take i).flatten := by
            simp [singles]
          rw [hpieces]
          rcases hpush.feed_singles chunk s (singles (chunks.take i).flatten) with
            ⟨out', s'', hchunk', hfeed'⟩ | ⟨e', s'', p', hchunk', -, -⟩
          · obtain ⟨hout, rfl⟩ := Prod.mk.inj (hchunk.symm.trans hchunk')
            obtain rfl := Except.ok.inj hout
            rw [hfeed', hbefore]
            rfl
          · exact nomatch hchunk.symm.trans hchunk'
    · refine Or.inr ⟨0, p, e, hfeed, by rw [feed_of_error hchunk], ?_, ?_, ?_⟩
      · constructor
        · exact Nat.zero_le _
        · simpa using hp
      · rw [feed_of_error hchunk]
        rfl
      · rw [feed_of_error hchunk]
        exact List.nil_prefix

end Sequential

end Rivloom.Feed
