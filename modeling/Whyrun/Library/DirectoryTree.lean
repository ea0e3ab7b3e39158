import Whyrun.Library.LexicalPath

/-!
Trees of directories without symbolic links. The nodes keep their places: a
tree may gain and lose nodes but moves none. Where a path resolves by walking
the tree, the node reached is at the place that the components of the path
give without the tree, which is what the lexical normal form relies on.
-/

namespace DirectoryTree

open ByteText LexicalPath

/-- Where the nodes are: the names on the way from the root. -/
structure Nodes (ν : Type) where
  place : ν → List Bytes
  plain : ∀ node, ∀ n ∈ place node, Plain n

/-- The absolute path of a node. -/
def Nodes.path {ν : Type} (nodes : Nodes ν) (node : ν) : Bytes := rootedText (nodes.place node)

/-- The tree at one moment. -/
structure Tree {ν : Type} (nodes : Nodes ν) where
  root : ν
  isDirectory : ν → Bool
  lookup : ν → Bytes → Option ν
  parent : ν → ν
  place_root : nodes.place root = []
  place_lookup : ∀ {directory name node}, lookup directory name = some node →
    nodes.place node = nodes.place directory ++ [name]
  place_parent : ∀ directory, nodes.place (parent directory) = (nodes.place directory).dropLast

variable {ν : Type} {nodes : Nodes ν}

namespace Tree

/-- One component, looked up in a directory. -/
def component (tree : Tree nodes) (directory : ν) (name : Bytes) : Option ν :=
  if tree.isDirectory directory then
    if name = dotDot then some (tree.parent directory)
    else if name = dot then some directory
    else tree.lookup directory name
  else none

def walk (tree : Tree nodes) : ν → List Bytes → Option ν
  | node, [] => some node
  | node, name :: rest => (tree.component node name).bind fun next => tree.walk next rest

/-- The node of a path that starts from `base` when it is relative. -/
def resolve (tree : Tree nodes) (base : Option ν) (path : Bytes) : Option ν :=
  if isAbsolute path then tree.walk tree.root (names path)
  else base.bind fun node => tree.walk node (names path)

variable {tree : Tree nodes}

theorem place_component {directory node : ν} {name : Bytes}
    (h : tree.component directory name = some node) :
    nodes.place node = climb (nodes.place directory) name := by
  unfold component at h
  unfold climb
  split at h
  · split at h
    · rename_i hname
      rw [if_pos hname, ← Option.some.inj h]
      exact tree.place_parent directory
    · rename_i hname
      rw [if_neg hname]
      split at h
      · rename_i hdot
        rw [if_pos (.inl hdot), ← Option.some.inj h]
      · rename_i hdot
        have hplace := tree.place_lookup h
        have hplain : Plain name := nodes.plain node name (by simp [hplace])
        rw [if_neg (by simp [hdot, hplain.nonempty]), hplace]
  · contradiction

/-- Walking the tree climbs the names. -/
theorem place_walk {start node : ν} {ns : List Bytes} (h : tree.walk start ns = some node) :
    nodes.place node = ns.foldl climb (nodes.place start) := by
  induction ns generalizing start with
  | nil =>
      rw [← Option.some.inj h]
      rfl
  | cons name ns ih =>
      obtain ⟨next, hname, hrest⟩ := Option.bind_eq_some_iff.mp h
      rw [List.foldl_cons, ← place_component hname]
      exact ih hrest

theorem path_resolve_absolute {base : Option ν} {path : Bytes} {node : ν}
    (habsolute : isAbsolute path = true) (h : tree.resolve base path = some node) :
    nodes.path node = rootedText (normalNames path) := by
  rw [resolve, if_pos habsolute] at h
  rw [Nodes.path, place_walk h, tree.place_root]
  rfl

theorem path_resolve_relative {base : Option ν} {path : Bytes} {node : ν}
    (hrelative : isAbsolute path = false) (h : tree.resolve base path = some node) :
    ∃ start, base = some start ∧
      nodes.path node = rootedText (normalNames (join (nodes.path start) path)) := by
  rw [resolve, hrelative, if_neg Bool.false_ne_true] at h
  obtain ⟨start, hstart, hwalk⟩ := Option.bind_eq_some_iff.mp h
  refine ⟨start, hstart, ?_⟩
  rw [Nodes.path, place_walk hwalk, Nodes.path, normalNames_join_rootedText (nodes.plain start)]

end Tree

/-! ### The tree of all names -/

instance (name : Bytes) : Decidable (Plain name) :=
  decidable_of_iff (name ≠ [] ∧ name ≠ dot ∧ name ≠ dotDot ∧ separator ∉ name)
    ⟨fun h => ⟨h.1, h.2.1, h.2.2.1, h.2.2.2⟩, fun h => ⟨h.1, h.2, h.3, h.4⟩⟩

/-- A place is its own node. -/
def allNodes : Nodes { ns : List Bytes // ∀ n ∈ ns, Plain n } where
  place node := node.1
  plain node := node.2

/-- Every directory has every name. -/
def fullTree : Tree allNodes where
  root := ⟨[], by simp⟩
  isDirectory _ := true
  lookup directory name :=
    if h : Plain name then some ⟨directory.1 ++ [name], by
      intro n hn
      rcases List.mem_append.mp hn with hn | hn
      · exact directory.2 n hn
      · rw [List.mem_singleton.mp hn]
        exact h⟩
    else none
  parent directory :=
    ⟨directory.1.dropLast, fun n hn => directory.2 n (List.mem_of_mem_dropLast hn)⟩
  place_root := rfl
  place_lookup h := by
    split at h
    · rw [← Option.some.inj h]
      rfl
    · contradiction
  place_parent _ := rfl

end DirectoryTree
