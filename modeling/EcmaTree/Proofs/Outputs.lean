import EcmaTree.Proofs.Recording.Found

/-!
# What the options of the output leave alone

Options that read alike, with or without someone who observes the parse, fail alike or find the same tree: the same
kinds, identities and extents. They may keep more or less of places, and write comments into the tree or not. What
both of them ask for is the same.
-/

namespace EcmaTree

/-! ## What two options both ask for -/

/-- What both presentations keep of a place. -/
def Presentation.common (p q : Presentation) : Presentation where
  range := p.range && q.range
  loc := p.loc && q.loc
  source := if p.source = q.source then p.source else none

/-- As much of a placement as a presentation keeps. -/
def Placement.restrict (p : Presentation) (place : Placement) : Placement where
  range := if p.range then place.range else none
  loc := if p.loc then place.loc.map fun l => { l with source := if p.source.isSome then l.source else none } else none

/-- A token with as much of its place as a presentation keeps. -/
def TokenEntry.restrict (p : Presentation) (t : TokenEntry) : TokenEntry :=
  { t with placement := t.placement.restrict p.unnamed }

/-- A comment with as much of its place as a presentation keeps. -/
def Comment.restrict (p : Presentation) (c : Comment) : Comment :=
  { c with placement := c.placement.restrict p.unnamed }

/-- What is known of a node, with as much of places as a presentation keeps. Attached comments keep their ranges. -/
def NodeInfo.restrict (p : Presentation) (info : NodeInfo) : NodeInfo :=
  { info with
    placement := info.placement.restrict p
    leading := info.leading.map (·.restrict { p with range := true })
    trailing := info.trailing.map (·.restrict { p with range := true })
    inner := info.inner.map (·.restrict { p with range := true }) }

/-- A tree with as much of places as a presentation keeps. -/
def Node.restrict (p : Presentation) (n : Node) : Node := n.mapInfo (·.restrict p)

/-- What is known of a node but for what is kept of its place, and for its comments: its identity and its extent. -/
def NodeInfo.bare (info : NodeInfo) : NodeInfo :=
  { info with placement := {}, leading := [], trailing := [], inner := [] }

/-- A tree without what is kept of places, and without its comments. -/
def Node.bare (n : Node) : Node := n.mapInfo NodeInfo.bare

/-! ## Options that read alike -/

variable {o o' : ParseOptions} {source : String}

/-- The options differ only in what is kept and given back. -/
structure ParseOptions.ReadAlike (o o' : ParseOptions) : Prop where
  goal : o.goal = o'.goal
  jsx : o.jsx = o'.jsx
  tolerant : o.tolerant = o'.tolerant
  strengths : o.strengths = o'.strengths

theorem ParseOptions.ReadAlike.dialect (h : o.ReadAlike o') : o.dialect = o'.dialect := by
  simp [ParseOptions.dialect, h.goal, h.jsx, h.tolerant, h.strengths]

/-- What both options keep of a place. -/
def ParseOptions.common (o o' : ParseOptions) : Presentation := o.presentation.common o'.presentation

/-- The same program, as far as both options ask for it. -/
structure Program.Alike (o o' : ParseOptions) (p q : Program) : Prop where
  bare : p.root.bare = q.root.bare
  root : o.attachComment = o'.attachComment → p.root.restrict (o.common o') = q.root.restrict (o.common o')
  errors : p.errors = q.errors
  tokens : o.tokens = true → o'.tokens = true → ∃ ts us, p.tokens = some ts ∧ q.tokens = some us ∧
    ts.map (·.restrict (o.common o')) = us.map (·.restrict (o.common o'))
  comments : o.comment = true → o'.comment = true → ∃ cs ds, p.comments = some cs ∧ q.comments = some ds ∧
    cs.map (·.restrict (o.common o')) = ds.map (·.restrict (o.common o'))

/-- The same failure, or the same program as far as both options ask for it. -/
inductive AlikeResults (o o' : ParseOptions) : Except Failure Program → Except Failure Program → Prop
  | failed (failure : Failure) : AlikeResults o o' (.error failure) (.error failure)
  | parsed {p q : Program} (h : p.Alike o o' q) : AlikeResults o o' (.ok p) (.ok q)

/-! ## What is kept by both -/

namespace Presentation

variable (p q : Presentation) (range : Span) (start stop : Position)

/-- Of what one presentation keeps of a place, and of what another one keeps, the same is kept by both. -/
theorem place_common : (p.place range start stop).restrict (p.common q) =
    (q.place range start stop).restrict (p.common q) := by
  obtain ⟨pr, pl, ps⟩ := p
  obtain ⟨qr, ql, qs⟩ := q
  have sources : (if (if ps = qs then ps else none).isSome then ps else none) =
      if (if ps = qs then ps else none).isSome then qs else none := by
    split <;> simp_all
  cases pr <;> cases qr <;> cases pl <;> cases ql <;>
    simp [place, common, Placement.restrict, wanted, sources]

theorem place_common_unnamed : (p.unnamed.place range start stop).restrict (p.common q).unnamed =
    (q.unnamed.place range start stop).restrict (p.common q).unnamed := by
  obtain ⟨pr, pl, ps⟩ := p
  obtain ⟨qr, ql, qs⟩ := q
  cases pr <;> cases qr <;> cases pl <;> cases ql <;> rfl

end Presentation

namespace ParseOptions

variable (o o' : ParseOptions)

theorem relisted_common (t : TokenEntry) :
    (o.relisted t).restrict (o.common o') = (o'.relisted t).restrict (o.common o') :=
  congrArg (fun placement => { t with placement }) (Presentation.place_common_unnamed ..)

theorem placed_common (c : Comment) : (o.placed c).restrict (o.common o') = (o'.placed c).restrict (o.common o') :=
  congrArg (fun placement => { c with placement }) (Presentation.place_common_unnamed ..)

theorem attached_common (c : Comment) : (o.attached c).restrict { o.common o' with range := true } =
    (o'.attached c).restrict { o.common o' with range := true } :=
  congrArg (fun placement => { c with placement })
    (Presentation.place_common_unnamed { o.presentation with range := true } { o'.presentation with range := true } ..)

theorem attached_all_common (cs : List Comment) :
    (cs.map o.attached).map (·.restrict { o.common o' with range := true }) =
      (cs.map o'.attached).map (·.restrict { o.common o' with range := true }) := by
  rw [List.map_map, List.map_map]
  exact List.map_congr_left fun c _ => o.attached_common o' c

theorem stamp_common (info : NodeInfo) :
    (o.stamp info).placement.restrict (o.common o') = (o'.stamp info).placement.restrict (o.common o') := by
  obtain ⟨id, extent⟩ := info
  cases extent with
  | none => rfl
  | some e => exact Presentation.place_common ..

/-- Whatever is claimed, two nodes that are given back have in common what both options ask for. -/
theorem given_common (claims : Attachment) (info : NodeInfo) (h : o.attachComment = o'.attachComment) :
    (o.given claims info).restrict (o.common o') = (o'.given claims info).restrict (o.common o') := by
  rw [given, given, h]
  split
  · simp only [NodeInfo.restrict, attached_all_common o o', stamp_common o o']
    rfl
  · simp only [NodeInfo.restrict, stamp_common o o']
    rfl

/-- Without what is kept of places and without comments nothing has been added to a node. -/
theorem given_bare (claims : Attachment) (info : NodeInfo) : (o.given claims info).bare = info.bare := by
  rw [given]
  split <;> rfl

end ParseOptions

namespace Program

/-- Places and comments apart, the tree is the one that the parse found. -/
theorem asked_bare (o : ParseOptions) (root : Node) (s : ParseState) : (asked o root s).root.bare = root.bare := by
  rw [asked, Node.bare, Node.mapInfo_mapInfo, Node.bare]
  exact congrArg (Node.mapInfo · root) (funext fun info => o.given_bare _ info)

theorem asked_alike (h : o.ReadAlike o') (root : Node) (s : ParseState) :
    (asked o root s).Alike o o' (asked o' root s) where
  bare := (asked_bare o root s).trans (asked_bare o' root s).symm
  root hattach := by
    rw [asked, asked, Node.restrict, Node.restrict, Node.mapInfo_mapInfo, Node.mapInfo_mapInfo]
    exact congrArg (Node.mapInfo · root) (funext fun info => o.given_common o' _ info hattach)
  errors := by simp [asked, h.tolerant]
  tokens ho ho' := by
    refine ⟨_, _, if_pos ho, if_pos ho', ?_⟩
    rw [List.map_map, List.map_map]
    exact List.map_congr_left fun t _ => o.relisted_common o' t
  comments ho ho' := by
    refine ⟨_, _, if_pos ho, if_pos ho', ?_⟩
    rw [List.map_map, List.map_map]
    exact List.map_congr_left fun c _ => o.placed_common o' c

end Program

/-- Options that read alike, with an observer or without one, lead to the same failure, or to the same program as far as
both ask for it. -/
theorem options_of_output_do_not_matter (h : o.ReadAlike o') (observed observed' : Bool) (source : String) :
    AlikeResults o o' (parseObserved observed source o).2 (parseObserved observed' source o').2 := by
  rw [parseObserved_eq, parseObserved_eq, ← h.dialect]
  cases Parse.source source o.dialect with
  | ok root s => exact .parsed (Program.asked_alike h root s)
  | error failure s => exact .failed failure

theorem options_of_output_do_not_matter_call :
    (parse "f(/* a */ x)" { tokens := true, attachComment := true }).toOption.isSome = true ∧
      AlikeResults { tokens := true, attachComment := true } { range := true, tokens := true, comment := true }
        (parseObserved false "f(/* a */ x)" { tokens := true, attachComment := true }).2
        (parseObserved true "f(/* a */ x)" { range := true, tokens := true, comment := true }).2 :=
  have alike : ParseOptions.ReadAlike { tokens := true, attachComment := true }
      { range := true, tokens := true, comment := true } := ⟨rfl, rfl, rfl, rfl⟩
  ⟨by decide +kernel, options_of_output_do_not_matter alike false true "f(/* a */ x)"⟩

end EcmaTree
