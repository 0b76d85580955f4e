import Metadoc.Tree.Dump
import Metadoc.Proofs.Text.Quoted
import Mathlib.Data.List.Forall2

/-!
# What a dump tells

The lines of a dump say where they end, and their depths say where the lists below a node end.  Only
where its tags end and its children begin is not written down: that is for the nodes themselves to
tell.

* `NodeData.Shown` is what a line shows of a node, and `Tree.Agree` says that two trees show the
  same, node by node;
* `Tree.selfDelimiting_line` : a line is known from any text that it begins;
* `Tree.outline` lists what the lines of a dump show, and `Tree.outline_eq_of_dump` that the dump
  determines it;
* `Tree.agree_of_dump` : trees whose tags can be told from their children show the same where their
  dumps are the same.
-/

namespace Metadoc

/-! ### Flags -/

namespace Facets

variable {a b : Facets}

theorem mem_flags_iff (f : Flag) : f ∈ a.flags ↔ a.has f = true := by
  simp [flags, Flag.mem_all]

theorem style?_eq_of_has (h : ∀ f, a.has f = b.has f) : a.style? = b.style? := by
  have hliteral := h .stringLiteral
  have hsingle := h .stringSingleQuote
  have hdouble := h .stringDoubleQuote
  have htick := h .stringTick
  have htriplet := h .stringTriplet
  simp only [has] at hliteral hsingle hdouble htick htriplet
  cases ha : a.style? with
  | none =>
    rw [ha] at hliteral
    exact (Option.isSome_eq_false_iff.1 hliteral.symm |> Option.isNone_iff_eq_none.1).symm
  | some s =>
    cases hb : b.style? with
    | none => simp [ha, hb] at hliteral
    | some s' =>
      simp only [ha, hb, Option.any_some, decide_eq_decide] at *
      obtain ⟨q, t⟩ := s
      obtain ⟨q', t'⟩ := s'
      cases q <;> cases q' <;> simp_all

theorem style?_eq_some_iff {style : StringStyle} :
    a.style? = some style ↔ a.literal = some (.string style) := by
  unfold style?
  split
  · rename_i hliteral
    simp [hliteral]
  · rename_i hother
    exact ⟨nofun, fun h => absurd h (hother style)⟩

/-- How a node was written is known from the facts about it. -/
theorem eq_of_has (h : ∀ f, a.has f = b.has f) : a = b := by
  have hopened : a.opened = b.opened := Option.ext fun d => by
    cases d with
    | paren => exact decide_eq_decide.1 (h .hasParenLeft)
    | bracket => exact decide_eq_decide.1 (h .hasBracketLeft)
    | brace => exact decide_eq_decide.1 (h .hasBraceLeft)
  have hclosed : a.closed = b.closed := Option.ext fun d => by
    cases d with
    | paren => exact decide_eq_decide.1 (h .hasParenRight)
    | bracket => exact decide_eq_decide.1 (h .hasBracketRight)
    | brace => exact decide_eq_decide.1 (h .hasBraceRight)
  have hbehind : a.followedBy = b.followedBy := Option.ext fun sep => by
    cases sep with
    | comma => exact decide_eq_decide.1 (h .isBeforeComma)
    | semicolon => exact decide_eq_decide.1 (h .isBeforeSemicolon)
  have hbefore : a.precededBy = b.precededBy := Option.ext fun sep => by
    cases sep with
    | comma => exact decide_eq_decide.1 (h .isAfterComma)
    | semicolon => exact decide_eq_decide.1 (h .isAfterSemicolon)
  have hliteral : a.literal = b.literal := Option.ext fun k => by
    cases k with
    | identifier => exact decide_eq_decide.1 (h .identifier)
    | numeric => exact decide_eq_decide.1 (h .numeric)
    | symbol => exact decide_eq_decide.1 (h .symbol)
    | string style => rw [← style?_eq_some_iff, style?_eq_of_has h, style?_eq_some_iff]
  cases a
  cases b
  simp_all

theorem flags_injective : Function.Injective flags := fun a b h =>
  eq_of_has fun f => Bool.eq_iff_iff.2 (by rw [← mem_flags_iff, h, mem_flags_iff])

end Facets

/-! ### Lines -/

/-- What a line of a dump shows of a node. -/
structure NodeData.Shown where
  /-- What the node stands for. -/
  kind : NodeKind
  /-- Its text. -/
  string : String
  /-- How it was written. -/
  facets : Facets
  /-- The comment above it. -/
  pre : String
  /-- The comment behind it. -/
  post : String

/-- What the line of a node shows of it. -/
def NodeData.shown (d : NodeData) : Shown := ⟨d.kind, d.string, d.facets, d.pre, d.post⟩

namespace Tree

open NodeData (Shown)

/-- A kind, up to the text. -/
def kindCode (kind : NodeKind) : List Char := kind.name.toList ++ [' ']

/-- The flags behind the first bracket. -/
def flagsCode (fs : List Flag) : List Char :=
  (", ".intercalate (fs.map Flag.name)).toList ++ [']']

/-- The part of a line behind the indentation. -/
def bodyCode (s : Shown) : List Char :=
  kindCode s.kind ++ ((Quoted.encode s.string).toList ++ (s.facets.dump.toList ++
    ((dumpComment " pre=" s.pre).toList ++ ((dumpComment " post=" s.post).toList ++ ['\n']))))

/-- A line, with the depth of its node. -/
def lineCode (l : Nat × Shown) : List Char := List.replicate (2 * l.1) ' ' ++ bodyCode l.2

theorem toList_pushn (n : Nat) : ("".pushn ' ' n).toList = List.replicate n ' ' := by
  rw [String.pushn_eq_repeat_push]
  induction n with
  | zero => rfl
  | succ n ih => simp [Nat.repeat, ih, List.replicate_succ']

theorem toList_dumpLine (depth : Nat) (d : NodeData) :
    (dumpLine depth d).toList = lineCode (depth, d.shown) := by
  simp [dumpLine, lineCode, bodyCode, kindCode, toList_pushn, NodeData.shown]

theorem selfDelimiting_kind : SelfDelimiting kindCode :=
  .of_isPrefix fun a b => by cases a <;> cases b <;> decide

theorem selfDelimiting_name : SelfDelimiting fun f : Flag => f.name.toList := by
  have hall : ∀ f ∈ Flag.all, ∀ g ∈ Flag.all, f.name.toList <+: g.name.toList → f = g := by
    decide
  exact .of_isPrefix fun f g => hall f (Flag.mem_all f) g (Flag.mem_all g)

theorem flagsCode_cons (f : Flag) (fs : List Flag) : flagsCode (f :: fs) =
    f.name.toList ++ (fs.flatMap (fun g => ", ".toList ++ g.name.toList) ++ [']']) := by
  induction fs generalizing f with
  | nil => simp [flagsCode]
  | cons g fs ih =>
    have hrest := ih g
    simp only [flagsCode, List.map_cons] at hrest
    simp only [flagsCode, List.map_cons, String.intercalate_cons_cons, String.toList_append,
      List.append_assoc, hrest, List.flatMap_cons]

theorem flagsCode_inj {fs gs : List Flag} {x y : List Char} (hf : fs ≠ []) (hg : gs ≠ [])
    (h : flagsCode fs ++ x = flagsCode gs ++ y) : fs = gs ∧ x = y := by
  obtain ⟨f, fs, rfl⟩ := List.exists_cons_of_ne_nil hf
  obtain ⟨g, gs, rfl⟩ := List.exists_cons_of_ne_nil hg
  have hsep : SelfDelimiting fun g : Flag => ", ".toList ++ g.name.toList :=
    fun a b x y heq => selfDelimiting_name (List.cons.inj (List.cons.inj heq).2).2
  have hstop (g : Flag) (x y : List Char) : ", ".toList ++ g.name.toList ++ x ≠ ']' :: y :=
    fun heq => absurd (List.cons.inj heq).1 (by decide)
  have hrest := hsep.many hstop
  rw [flagsCode_cons, flagsCode_cons] at h
  obtain ⟨heq, hxy⟩ := (selfDelimiting_name.append hrest) (a := (f, fs)) (b := (g, gs)) h
  obtain ⟨rfl, rfl⟩ := Prod.mk.inj heq
  exact ⟨rfl, hxy⟩

theorem toList_dumpComment (mark c : String) : (dumpComment mark c).toList =
    if c = "" then [] else mark.toList ++ (Quoted.encode c).toList := by
  unfold dumpComment
  split <;> simp

theorem toList_dump (facets : Facets) : facets.dump.toList =
    if facets.flags = [] then [] else " [".toList ++ flagsCode facets.flags := by
  unfold Facets.dump flagsCode
  split
  · rename_i hnone
    simp [hnone]
  · rename_i hsome
    rw [if_neg hsome]
    simp

theorem selfDelimiting_post : SelfDelimiting fun p : String × Unit =>
    (dumpComment " post=" p.1).toList ++ ['\n'] := by
  have hend : SelfDelimiting fun _ : Unit => ['\n'] := .of_isPrefix fun _ _ _ => rfl
  exact .optional (toList_dumpComment " post=")
    (fun _ _ _ _ _ _ h => Quoted.selfDelimiting_encode h) hend
    fun _ _ _ h => absurd (List.cons.inj h).1 (by decide)

theorem selfDelimiting_pre : SelfDelimiting fun p : String × (String × Unit) =>
    (dumpComment " pre=" p.1).toList ++ ((dumpComment " post=" p.2.1).toList ++ ['\n']) := by
  refine .optional (toList_dumpComment " pre=")
    (fun _ _ _ _ _ _ h => Quoted.selfDelimiting_encode h) selfDelimiting_post fun b x y h => ?_
  simp only [toList_dumpComment] at h
  split_ifs at h
  · exact absurd (List.cons.inj h).1 (by decide)
  · exact absurd (List.cons.inj (List.cons.inj (List.cons.inj h).2).2).1 (by decide)

theorem selfDelimiting_flags : SelfDelimiting fun p : List Flag × (String × (String × Unit)) =>
    (if p.1 = [] then [] else " [".toList ++ flagsCode p.1) ++
      ((dumpComment " pre=" p.2.1).toList ++
        ((dumpComment " post=" p.2.2.1).toList ++ ['\n'])) := by
  refine .optional (fun _ => rfl) (fun _ _ _ _ => flagsCode_inj) selfDelimiting_pre
    fun b x y h => ?_
  simp only [toList_dumpComment] at h
  split_ifs at h
  · exact absurd (List.cons.inj h).1 (by decide)
  all_goals exact absurd (List.cons.inj (List.cons.inj h).2).1 (by decide)

/-- A line behind its indentation says where it ends. -/
theorem selfDelimiting_body : SelfDelimiting bodyCode := by
  have hall := (selfDelimiting_kind.append
    (Quoted.selfDelimiting_encode.append selfDelimiting_flags)).comp
      (e := fun s : Shown => (s.kind, s.string, s.facets.flags, s.pre, s.post, ())) fun s t h => by
    simp only [Prod.mk.injEq, and_true] at h
    obtain ⟨hkind, hstring, hflags, hpre, hpost⟩ := h
    have hfacets := Facets.flags_injective hflags
    cases s
    cases t
    simp_all
  intro s t x y h
  rw [bodyCode, bodyCode, toList_dump, toList_dump] at h
  exact hall h

theorem bodyCode_ne (s : Shown) (x y : List Char) : bodyCode s ++ x ≠ ' ' :: y := by
  rw [bodyCode, kindCode]
  cases s.kind <;> exact fun h => absurd (List.cons.inj h).1 (by decide)

theorem replicate_inj {b : Char} {x y : List Char} (hx : ∀ z, x ≠ b :: z) (hy : ∀ z, y ≠ b :: z) :
    ∀ {n m : Nat}, List.replicate n b ++ x = List.replicate m b ++ y → n = m ∧ x = y
  | 0, 0, h => ⟨rfl, h⟩
  | 0, m + 1, h => absurd h (hx _)
  | n + 1, 0, h => absurd h.symm (hy _)
  | n + 1, m + 1, h => by
    obtain ⟨hnm, hxy⟩ := replicate_inj hx hy (List.cons.inj h).2
    exact ⟨congrArg Nat.succ hnm, hxy⟩

/-- A line says where it ends. -/
theorem selfDelimiting_line : SelfDelimiting lineCode := by
  rintro ⟨n, s⟩ ⟨m, t⟩ x y h
  simp only [lineCode, List.append_assoc] at h
  obtain ⟨hdepth, hbody⟩ := replicate_inj (bodyCode_ne s x) (bodyCode_ne t y) h
  obtain ⟨rfl, hxy⟩ := selfDelimiting_body hbody
  obtain rfl : n = m := by omega
  exact ⟨rfl, hxy⟩

theorem lineCode_ne_nil (l : Nat × Shown) : lineCode l ≠ [] := by
  simp [lineCode, bodyCode, kindCode]

/-! ### Outlines -/

mutual

/-- What the lines of a tree show, with their depths. -/
def outline (depth : Nat) : Tree → List (Nat × Shown)
  | node _ d ts cs => (depth, d.shown) :: (outlineAll (depth + 1) ts ++ outlineAll (depth + 1) cs)

/-- What the lines of several trees show, with their depths. -/
def outlineAll (depth : Nat) : List Tree → List (Nat × Shown)
  | [] => []
  | t :: ts => outline depth t ++ outlineAll depth ts

end

mutual

theorem toList_dumpAt (depth : Nat) : ∀ t : Tree,
    (dumpAt depth t).toList = (outline depth t).flatMap lineCode
  | node i d ts cs => by
    simp [dumpAt, outline, toList_dumpLine, toList_dumpAll (depth + 1) ts,
      toList_dumpAll (depth + 1) cs]

theorem toList_dumpAll (depth : Nat) : ∀ ts : List Tree,
    (dumpAll depth ts).toList = (outlineAll depth ts).flatMap lineCode
  | [] => rfl
  | t :: ts => by
    simp [dumpAll, outlineAll, toList_dumpAt depth t, toList_dumpAll depth ts]

end

/-- What the lines of a dump show is known from the dump. -/
theorem outline_eq_of_dump {t u : Tree} (h : t.dump = u.dump) : outline 0 t = outline 0 u := by
  refine selfDelimiting_line.flatMap_inj lineCode_ne_nil ?_
  rw [← toList_dumpAt, ← toList_dumpAt]
  exact congrArg String.toList h

/-! ### Trees -/

/-- Whether two trees show the same, node by node, their tags and their children each in the same
order. -/
inductive Agree : Tree → Tree → Prop
  /-- The roots show the same, and the trees below them agree. -/
  | node {i j : Nat} {d d' : NodeData} {ts ts' cs cs' : List Tree} (shown : d.shown = d'.shown)
      (tags : List.Forall₂ Agree ts ts') (children : List.Forall₂ Agree cs cs') :
      Agree (node i d ts cs) (node j d' ts' cs')

/-- Whether what the nodes directly below a node show tells its tags from its children. -/
structure Told (isTag : Shown → Prop) (t : Tree) : Prop where
  /-- Its tags are tags. -/
  tags : ∀ g ∈ t.tags, isTag g.data.shown
  /-- Its children are none. -/
  children : ∀ c ∈ t.children, ¬isTag c.data.shown

/-- Whether lines cannot begin with a node at a depth that shows something, nor with one further
down. -/
def EndsAt (depth : Nat) (P : Shown → Prop) (ls : List (Nat × Shown)) : Prop :=
  ∀ l ∈ ls.head?, l.1 < depth ∨ l.1 = depth ∧ ¬P l.2

section EndsAt

variable {depth : Nat} {P : Shown → Prop} {x y : List (Nat × Shown)} {t : Tree} {ts : List Tree}

theorem endsAt_nil : EndsAt depth P [] := fun _ hl => absurd hl (Option.not_mem_none _)

theorem EndsAt.imp {Q : Shown → Prop} (h : EndsAt depth P x) (hPQ : ∀ s, Q s → P s) :
    EndsAt depth Q x := fun l hl => (h l hl).imp_right fun ⟨heq, hP⟩ => ⟨heq, mt (hPQ l.2) hP⟩

theorem head?_outlineAll (t : Tree) (ts : List Tree) (x : List (Nat × Shown)) :
    (outlineAll depth (t :: ts) ++ x).head? = some (depth, t.data.shown) := by
  cases t
  simp [outlineAll, outline, data]

/-- Where trees at a depth show something, lines that end there do not begin with them. -/
theorem EndsAt.not_outlineAll (h : EndsAt depth P y) (ht : P t.data.shown)
    (heq : y = outlineAll depth (t :: ts) ++ x) : False := by
  rcases h _ (heq ▸ head?_outlineAll t ts x) with hlt | ⟨-, hP⟩
  · exact Nat.lt_irrefl _ hlt
  · exact hP ht

theorem EndsAt.outlineAll (h : EndsAt depth P x) :
    EndsAt (depth + 1) (fun _ => True) (outlineAll depth ts ++ x) := by
  intro l hl
  cases ts with
  | nil =>
    rcases h l hl with hlt | ⟨heq, -⟩
    · exact .inl (Nat.lt_succ_of_lt hlt)
    · exact .inl (heq ▸ Nat.lt_succ_self _)
  | cons t ts =>
    rw [head?_outlineAll] at hl
    obtain rfl := Option.some.inj hl
    exact .inl (Nat.lt_succ_self _)

theorem EndsAt.children (h : EndsAt depth (fun _ => True) x)
    (hts : ∀ t ∈ ts, ¬P t.data.shown) : EndsAt depth P (Tree.outlineAll depth ts ++ x) := by
  intro l hl
  cases ts with
  | nil => exact h.imp (fun _ _ => trivial) l hl
  | cons t ts =>
    rw [head?_outlineAll] at hl
    obtain rfl := Option.some.inj hl
    exact .inr ⟨rfl, hts t List.mem_cons_self⟩

end EndsAt

mutual

/-- A tree is known from lines that begin with it, if its tags can be told from its children. -/
theorem agree_of_outline {isTag : Shown → Prop} (depth : Nat) {x y : List (Nat × Shown)} :
    ∀ t u : Tree, (∀ v ∈ t.preorder, v.Told isTag) → (∀ v ∈ u.preorder, v.Told isTag) →
      EndsAt (depth + 1) (fun _ => True) x → EndsAt (depth + 1) (fun _ => True) y →
      outline depth t ++ x = outline depth u ++ y → Agree t u ∧ x = y
  | node i d ts cs, node j d' ts' cs', ht, hu, hx, hy, h => by
    simp only [preorder, List.forall_mem_cons, List.forall_mem_append] at ht hu
    obtain ⟨htold, hts, hcs⟩ := ht
    obtain ⟨htold', hts', hcs'⟩ := hu
    simp only [outline, List.cons_append, List.append_assoc] at h
    obtain ⟨hroot, hbelow⟩ := List.cons.inj h
    -- The tags end where a line is less deep or shows no tag, the children where one is less deep.
    obtain ⟨htags, hrest⟩ := agreeAll_of_outline (depth + 1) ts ts' hts hts' htold.tags
      htold'.tags (hx.children htold.children) (hy.children htold'.children) hbelow
    obtain ⟨hchildren, hxy⟩ := agreeAll_of_outline (depth + 1) cs cs' hcs hcs'
      (fun _ _ => trivial) (fun _ _ => trivial) hx hy hrest
    exact ⟨.node (congrArg Prod.snd hroot) htags hchildren, hxy⟩

theorem agreeAll_of_outline {isTag P : Shown → Prop} (depth : Nat) {x y : List (Nat × Shown)} :
    ∀ ts us : List Tree, (∀ v ∈ preorderAll ts, v.Told isTag) →
      (∀ v ∈ preorderAll us, v.Told isTag) → (∀ t ∈ ts, P t.data.shown) →
      (∀ u ∈ us, P u.data.shown) → EndsAt depth P x → EndsAt depth P y →
      outlineAll depth ts ++ x = outlineAll depth us ++ y → List.Forall₂ Agree ts us ∧ x = y
  | [], [], _, _, _, _, _, _, h => ⟨.nil, h⟩
  | [], u :: us, _, _, _, hus, hx, _, h =>
    (hx.not_outlineAll (hus u List.mem_cons_self) h).elim
  | t :: ts, [], _, _, hts, _, _, hy, h =>
    (hy.not_outlineAll (hts t List.mem_cons_self) h.symm).elim
  | t :: ts, u :: us, ht, hu, hts, hus, hx, hy, h => by
    simp only [preorderAll, List.forall_mem_append] at ht hu
    simp only [outlineAll, List.append_assoc] at h
    obtain ⟨hfirst, hrest⟩ := agree_of_outline depth t u ht.1 hu.1 hx.outlineAll hy.outlineAll h
    obtain ⟨hothers, hxy⟩ := agreeAll_of_outline depth ts us ht.2 hu.2
      (fun v hv => hts v (List.mem_cons_of_mem t hv))
      (fun v hv => hus v (List.mem_cons_of_mem u hv)) hx hy hrest
    exact ⟨.cons hfirst hothers, hxy⟩

end

/-- Trees whose tags can be told from their children agree where their dumps are the same. -/
theorem agree_of_dump {isTag : Shown → Prop} {t u : Tree} (ht : ∀ v ∈ t.preorder, v.Told isTag)
    (hu : ∀ v ∈ u.preorder, v.Told isTag) (h : t.dump = u.dump) : Agree t u := by
  -- Behind the whole dump nothing comes, so the lines end there at any depth.
  have houtline := outline_eq_of_dump h
  rw [← List.append_nil (outline 0 t), ← List.append_nil (outline 0 u)] at houtline
  exact (agree_of_outline 0 t u ht hu endsAt_nil endsAt_nil houtline).1

end Tree

end Metadoc
