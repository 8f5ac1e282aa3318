/-!
# Powers

Natural numbers and integers are raised to natural exponents. Here `a ^ n` is always the power that
comes with the numbers themselves, so a statement about it reads the same whatever algebra is
imported beside it.
-/

attribute [default_instance 20000, instance (2000)] instPowNat
