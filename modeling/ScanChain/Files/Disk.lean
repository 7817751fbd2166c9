/-
# ScanChain.Files.Disk — a tree on a disk that fails

A disk is a file tree with the faults that operations on it are going to meet, one entry for each
operation in the order in which they are done; after the last entry there are none. A run in which
operations fail for want of room, of a permission or of a sound device is a run on the disk with the
faults that it meets.
-/
import ScanChain.Files.Tree

namespace ScanChain

/-- A file tree with the faults that the next operations meet. -/
structure Disk where
  tree : FileTree
  faults : List (Option Fault)
deriving DecidableEq

instance : Volume Disk where
  tree := Disk.tree
  setTree disk after := { disk with tree := after }
  fault? disk := (disk.faults.head?.join, { disk with faults := disk.faults.tail })
  tree_setTree _ _ := rfl
  tree_fault? _ := rfl

end ScanChain
