/-!
# Powers

A power of two bounds what a field of a word holds. Another library may bring powers of its own for
the same types; here they are those of the core library, so that a bound means one thing everywhere.
-/

attribute [
instance 10000] instPowNat
attribute [default_instance 10000] instPowNat
